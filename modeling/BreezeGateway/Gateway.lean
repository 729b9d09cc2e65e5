import BreezeGateway.Replay
import BreezeGateway.Routes

/-!
# The gateway

`src/gateway.rs` with the provider registry of `src/admission.rs`.  `handle` is written over the
calls it makes: providers, the matched service and the fallback.  `handleOrigin` puts an
`OriginService` and the proxy in their place.
-/

namespace BreezeGateway

open Effects

/-! ## Providers -/

inductive RegistrationError where
  | emptyName
  | duplicate (name : String)

structure AdmissionRegistry (P : Type) where
  providers : String → Option P

namespace AdmissionRegistry

variable {P : Type}

def new : AdmissionRegistry P := ⟨fun _ => none⟩

def register (self : AdmissionRegistry P) (name : String) (provider : P) :
    Except RegistrationError (AdmissionRegistry P) :=
  if trimIsEmpty name then .error .emptyName
  else if (self.providers name).isSome then .error (.duplicate name)
  else .ok ⟨Function.update self.providers name (some provider)⟩

def get (self : AdmissionRegistry P) (name : String) : Option P := self.providers name

end AdmissionRegistry

/-! ## Construction -/

inductive GatewayBuildError where
  | invalidRecordingAdmission
  | missingRecordingProvider (provider : String)
  | invalidCorsPolicy
  | proxy (error : ProxyConfigError)
  | missingProvider (route : ℕ) (provider : String)

/-- What the gateway takes from other crates. -/
structure GatewayLibraries (Index Cors : Type) where
  router : Routing Index
  uris : UriLibrary
  cors : CorsLibrary Cors

/-- `Gateway`, without the service it is generic over. -/
structure Gateway (P Index Cors : Type) where
  routes : RouteTable Index
  fallback : FallbackProxy
  admission : AdmissionRegistry P
  recordingAdmission : Option AdmissionRule
  cors : Option Cors

namespace Gateway

variable {P Index Cors : Type}

/-- The first route that references a provider nobody registered. -/
def missingProvider (admission : AdmissionRegistry P) :
    List (Option AdmissionRule × ℕ) → Option GatewayBuildError
  | [] => none
  | (some rule, route) :: rest =>
      if (admission.get rule.provider).isNone then some (.missingProvider route rule.provider)
      else missingProvider admission rest
  | (none, _) :: rest => missingProvider admission rest

def withAdmission (routes : RouteTable Index) (fallbackOrigin : Uri)
    (admission : AdmissionRegistry P) : Except GatewayBuildError (Gateway P Index Cors) :=
  match missingProvider admission routes.admissions.zipIdx with
  | some error => .error error
  | none =>
      match FallbackProxy.new fallbackOrigin with
      | .error error => .error (.proxy error)
      | .ok fallback => .ok ⟨routes, fallback, admission, none, none⟩

def new (routes : RouteTable Index) (fallbackOrigin : Uri) :
    Except GatewayBuildError (Gateway P Index Cors) :=
  withAdmission routes fallbackOrigin .new

def withRecordingAdmission (self : Gateway P Index Cors) (rule : AdmissionRule) :
    Except GatewayBuildError (Gateway P Index Cors) :=
  if rule.isValid = false then .error .invalidRecordingAdmission
  else if (self.admission.get rule.provider).isNone then
    .error (.missingRecordingProvider rule.provider)
  else .ok { self with recordingAdmission := some rule }

def withCors (lib : CorsLibrary Cors) (self : Gateway P Index Cors) (cors : Cors) :
    Except GatewayBuildError (Gateway P Index Cors) :=
  if lib.validate cors = false then .error .invalidCorsPolicy else .ok { self with cors := some cors }

end Gateway

/-! ## `handle` -/

inductive GatewayOp (P : Type) where
  | panic (message : String)
  | acquire (provider : P) (call : ProviderCall) (timeoutMs : ℕ)
  /-- `self.matched.call(request, peer_addr)`. -/
  | call (request : Request Incoming) (peer : SocketAddr)
  /-- `self.fallback.forward(request, peer_addr)`. -/
  | forward (request : Request Incoming) (peer : SocketAddr)

abbrev gatewaySig (P : Type) : Sig where
  Op := GatewayOp P
  Ans
    | .panic _ => Empty
    | .acquire .. => Option (Except AdmissionError AcquireOutcome)
    | .call .. => Response
    | .forward .. => Response

def originHeader : HeaderName := .fromStatic "origin"

def accessControlRequestMethod : HeaderName := .fromStatic "access-control-request-method"

def accessControlRequestHeaders : HeaderName := .fromStatic "access-control-request-headers"

def corsPreflight {Cors : Type} (lib : CorsLibrary Cors) (cors : Cors) (request : Request Incoming) :
    Option Response :=
  (lib.preflight cors {
    method := request.method.name
    origin := (request.headers.get originHeader).map HeaderValue.bytes
    requestMethod := (request.headers.get accessControlRequestMethod).map HeaderValue.bytes
    requestHeaders := (request.headers.get accessControlRequestHeaders).map HeaderValue.bytes
  }).map fun response => {
    status := response.status
    version := .http11
    headers := response.headers
    extensions := ⟨none, none⟩
    body := .full response.body }

namespace Gateway

variable {P Index Cors : Type} (lib : GatewayLibraries Index Cors) (self : Gateway P Index Cors)

/-- The request without the reserved values a client may have sent. -/
def strip (request : Request Incoming) : Request Incoming :=
  { request with
    headers := ((request.headers.remove admissionScopeHeader).remove admissionTokenHeader).remove
      responseCorsHeader
    extensions := { request.extensions with ticket := none } }

def preflight (request : Request Incoming) : Option Response :=
  self.cors.bind fun cors => corsPreflight lib.cors cors request

/-- The recording rule, unless the request is excluded. -/
def globalRule (request : Request Incoming) : Option AdmissionRule :=
  self.recordingAdmission.filter fun _ =>
    !self.routes.isExcluded lib.router request.method request.uri.path

def selected (request : Request Incoming) : Option ℕ :=
  self.routes.select lib.router request.method request.uri.path

/-- `self.routes.admissions()[id]`. -/
def routeRule (id : ℕ) : Except Panic (Option AdmissionRule) :=
  expect self.routes.admissions[id]? "index out of bounds"

def rule (request : Request Incoming) : Except Panic (Option AdmissionRule) :=
  match self.globalRule lib request with
  | some rule => .ok (some rule)
  | none =>
      match self.selected lib request with
      | some id => self.routeRule id
      | none => .ok none

def providerCall (request : Request Incoming) (rule : AdmissionRule) : ProviderCall :=
  if (self.globalRule lib request).isSome then .tryAcquireRequest rule.scope request.uri.path
  else .tryAcquire rule.scope

/-- The request and whether it goes to the matched service, after the answer of the provider. -/
def admitted (request : Request Incoming) (rule : AdmissionRule)
    (result : Except AdmissionError AcquireOutcome) : Bool × Request Incoming :=
  match result with
  | .ok (.acquired ticket) =>
      if ticket.scope = rule.scope then
        let request := ticket.attach request
        (true, { request with
          extensions := { request.extensions with recordingFallback := some self.fallback } })
      else (false, request)
  | _ => (false, request)

/-- The response as the public sees it. -/
def deliver (origin : Option HeaderValue) (response : Response) : Response :=
  let response := { response with headers := (lib.cors.takeFromHeaders response.headers).2 }
  match self.cors with
  | some cors => lib.cors.applyResponse cors (origin.map HeaderValue.bytes) response
  | none => response

def raise {α : Type} (x : Except Panic α) : Prog (gatewaySig P) α :=
  match x with
  | .ok a => .ret a
  | .error p => .op (.panic p.message) nofun

def handle (request : Request Incoming) (peer : SocketAddr) : Prog (gatewaySig P) Response :=
  let request := strip request
  match self.preflight lib request with
  | some response => .ret response
  | none => do
      let origin := if self.cors.isSome then request.headers.get originHeader else none
      let (matched, request) ← (do
        match ← raise (self.rule lib request) with
        | none => .ret ((self.selected lib request).isSome, request)
        | some rule => do
            let provider ← raise (expect (self.admission.get rule.provider)
              "configured providers were validated at construction")
            let result ← Prog.perform (S := gatewaySig P)
              (.acquire provider (self.providerCall lib request rule) rule.acquireTimeoutMs)
            .ret (self.admitted request rule (Option.getD result (.error .timeout)))
        : Prog (gatewaySig P) (Bool × Request Incoming))
      let response ← (
        if matched then Prog.perform (S := gatewaySig P) (.call request peer)
        else Prog.perform (S := gatewaySig P) (.forward request peer)
        : Prog (gatewaySig P) Response)
      .ret (self.deliver lib origin response)

/-- The calls of `handle`, when the matched service is an `OriginService`. -/
def dispatch (service : OriginService) : (o : (gatewaySig P).Op) →
    Prog (httpSig P) ((gatewaySig P).Ans o)
  | .panic message => .op (.panic message) nofun
  | .acquire provider call timeoutMs =>
      Prog.perform (S := httpSig P) (.acquire provider call timeoutMs)
  | .call request peer => (service.call lib.cors request peer).subst (attempt lib.uris)
  | .forward request peer => (self.fallback.forward request peer).subst (attempt lib.uris)

def handleOrigin (service : OriginService) (request : Request Incoming) (peer : SocketAddr) :
    Prog (httpSig P) Response :=
  (self.handle lib request peer).subst (self.dispatch lib service)

end Gateway

end BreezeGateway
