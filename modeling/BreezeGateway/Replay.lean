import BreezeGateway.Proxy

/-!
# Recording requests and their replay

`src/proxy/replay.rs` and the `OriginService` of `src/gateway.rs`.
-/

namespace BreezeGateway

open Effects

/-! ## `ReplayBody` -/

inductive Frame where
  | data (bytes : Bytes)
  | trailers (map : HeaderMap)

structure SizeHint where
  lower : ℕ
  upper : Option ℕ
deriving DecidableEq

namespace SizeHint

def new : SizeHint := ⟨0, none⟩

def setExact (_ : SizeHint) (n : ℕ) : SizeHint := ⟨n, some n⟩

def exact (hint : SizeHint) : Option ℕ :=
  if some hint.lower = hint.upper then some hint.lower else none

end SizeHint

/-- The body that `replay_body` boxes. -/
def replayBody (bytes : Bytes) (trailers : Option HeaderMap) : ReplayBody :=
  ⟨if bytes ≠ [] then some bytes else none, trailers⟩

namespace ReplayBody

/-- The frame that is ready, if there is one, and the body left. -/
def pollFrame (self : ReplayBody) : Option Frame × ReplayBody :=
  match self.bytes with
  | some bytes =>
      if bytes ≠ [] then (some (.data bytes), { self with bytes := none })
      else (self.trailers.map .trailers, ⟨none, none⟩)
  | none => (self.trailers.map .trailers, ⟨none, none⟩)

def isEndStream (self : ReplayBody) : Bool := self.bytes.isNone && self.trailers.isNone

def sizeHint (self : ReplayBody) : SizeHint :=
  if self.trailers.isNone then SizeHint.new.setExact ((self.bytes.map List.length).getD 0)
  else SizeHint.new

end ReplayBody

/-! ## Reading a body -/

structure Collected where
  bytes : Bytes
  trailers : Option HeaderMap

/-- `body.collect().await`; a stream that breaks is an error. -/
def Incoming.collect (body : Incoming) : Option Collected :=
  if body.broken then none else some ⟨body.chunks.flatten, body.trailers⟩

/-! ## `forward_recording` -/

/-- The request that is sent to the fallback if the recorder does not answer it. -/
def retryRequest (request : Request Incoming) (collected : Collected) : Request GatewayBody where
  method := request.method
  uri := request.uri
  version := request.version
  headers := (request.headers.remove admissionScopeHeader).remove admissionTokenHeader
  extensions := { RequestExtensions.new with tasks := request.extensions.tasks }
  body := .replay (replayBody collected.bytes collected.trailers)

namespace FallbackProxy

variable (self : FallbackProxy)

def forwardRecording (request : Request Incoming) (peer : SocketAddr) : Prog attemptSig Response :=
  let fallback := request.extensions.recordingFallback
  let request := { request with
    extensions := { request.extensions with recordingFallback := none } }
  match fallback with
  | none => self.forward request peer
  | some fallback =>
      let upgrade := isUpgrade request.headers
      let (downstream, request) :=
        if upgrade then
          let (downstream, request) := request.takeUpgrade
          (some downstream, request)
        else (none, request)
      match request.body.collect with
      | none => .ret (errorResponse statusBadRequest "failed to read request body")
      | some collected => do
          let retry := retryRequest request collected
          let request := request.mapBody fun _ =>
            .replay (replayBody collected.bytes collected.trailers)
          let (result, downstream) ← Prog.perform (S := attemptSig) ⟨self, request, peer, downstream⟩
          let replay : Prog attemptSig Response := do
            let (result, _) ← Prog.perform (S := attemptSig) ⟨fallback, retry, peer, downstream⟩
            .ret (orUnavailable result)
          match result with
          | .ok response =>
              if upgrade = false ∧ response.status = statusNotFound then replay else .ret response
          | .error _ => replay

end FallbackProxy

/-! ## `OriginService` -/

structure PreflightRequest where
  method : String
  origin : Option Bytes
  requestMethod : Option Bytes
  requestHeaders : Option Bytes

structure PreflightResponse where
  status : ℕ
  headers : HeaderMap
  body : Bytes

/-- `brz_http_cors`, for a type of policies. -/
structure CorsLibrary (Cors : Type) where
  validate : Cors → Bool
  preflight : Cors → PreflightRequest → Option PreflightResponse
  applyResponse : Cors → Option Bytes → Response → Response
  /-- `ResponseCors::take_from_headers`. -/
  takeFromHeaders : HeaderMap → ResponseCors × HeaderMap

/-- `brz_http_cors::RESPONSE_CORS_HEADER`. -/
def responseCorsHeader : HeaderName := .fromStatic "x-breeze-response-cors"

structure OriginService where
  proxy : FallbackProxy
  responseCors : Bool

namespace OriginService

def fromAdmission : OriginService := ⟨.fromAdmission, false⟩

def new (origin : Uri) : Except ProxyConfigError OriginService := do
  pure ⟨← FallbackProxy.new origin, false⟩

def withResponseCors (self : OriginService) : OriginService := { self with responseCors := true }

/-- What `call` does to the response of the proxy. -/
def trust {Cors : Type} (lib : CorsLibrary Cors) (self : OriginService) (response : Response) :
    Response :=
  let (policy, headers) := lib.takeFromHeaders response.headers
  let response := { response with headers := headers }
  if self.responseCors then
    { response with extensions := { response.extensions with cors := some policy } }
  else response

def call {Cors : Type} (lib : CorsLibrary Cors) (self : OriginService) (request : Request Incoming)
    (peer : SocketAddr) : Prog attemptSig Response := do
  let response ← self.proxy.forwardRecording request peer
  .ret (self.trust lib response)

end OriginService

end BreezeGateway
