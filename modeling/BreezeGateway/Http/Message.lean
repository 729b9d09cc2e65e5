import BreezeGateway.Admission
import BreezeGateway.Http.Router

/-!
# Requests and responses

`http::Request` and `http::Response` with the parts the gateway reads or hands on.  Extensions are
looked up by type, so they are a record with one optional field for each type in use.
-/

namespace BreezeGateway

inductive Version where
  | http09
  | http10
  | http11
  | http2
  | http3
deriving DecidableEq

def statusSwitchingProtocols : ℕ := 101

def statusOk : ℕ := 200

def statusBadRequest : ℕ := 400

def statusNotFound : ℕ := 404

def statusNotImplemented : ℕ := 501

def statusBadGateway : ℕ := 502

def statusServiceUnavailable : ℕ := 503

/-- The handle of a connection that may be upgraded; `none` for `OnUpgrade::none()`. -/
structure OnUpgrade where
  connection : Option ℕ
deriving DecidableEq

/-- `brz_http_server::hyper::UpgradeTasks`. -/
structure UpgradeTasks where
  id : ℕ
deriving DecidableEq

/-- `hyper::body::Incoming`: what the stream yields before it ends, or breaks. -/
structure Incoming where
  chunks : List Bytes
  trailers : Option HeaderMap
  broken : Bool

structure ReplayBody where
  bytes : Option Bytes
  trailers : Option HeaderMap

/-- The bodies that `GatewayBody` boxes. -/
inductive GatewayBody where
  | incoming (body : Incoming)
  | replay (body : ReplayBody)
  | full (bytes : Bytes)

/-- `FallbackProxy`.  The answers of its client come from outside. -/
structure FallbackProxy where
  scheme : String
  authority : Option String
deriving DecidableEq

/-- `brz_http_cors::ResponseCors`: `Skip`, or another decision. -/
inductive ResponseCors where
  | skip
  | other (id : ℕ)
deriving DecidableEq

structure RequestExtensions where
  ticket : Option AdmissionTicket
  /-- `RecordingFallback`. -/
  recordingFallback : Option FallbackProxy
  upgrade : Option OnUpgrade
  tasks : Option UpgradeTasks

namespace RequestExtensions

def new : RequestExtensions := ⟨none, none, none, none⟩

end RequestExtensions

structure Request (B : Type) where
  method : Method
  uri : Uri
  version : Version
  headers : HeaderMap
  extensions : RequestExtensions
  body : B

namespace Request

variable {B C : Type}

def mapBody (request : Request B) (f : B → C) : Request C :=
  { request with body := f request.body }

/-- `request_upgrade` and `hyper::upgrade::on`: the pending upgrade leaves the request. -/
def takeUpgrade (request : Request B) : OnUpgrade × Request B :=
  (request.extensions.upgrade.getD ⟨none⟩,
    { request with extensions := { request.extensions with upgrade := none } })

end Request

def AdmissionTicket.attach {B : Type} (ticket : AdmissionTicket) (request : Request B) :
    Request B :=
  { request with
    headers := (request.headers.insert admissionScopeHeader ticket.scopeValue).insert
      admissionTokenHeader ticket.tokenValue
    extensions := { request.extensions with ticket := some ticket } }

structure ResponseExtensions where
  cors : Option ResponseCors
  upgrade : Option OnUpgrade

/-- `GatewayResponse`. -/
structure Response where
  status : ℕ
  version : Version
  headers : HeaderMap
  extensions : ResponseExtensions
  body : GatewayBody

namespace Response

/-- `response_upgrade`. -/
def takeUpgrade (response : Response) : OnUpgrade × Response :=
  (response.extensions.upgrade.getD ⟨none⟩,
    { response with extensions := { response.extensions with upgrade := none } })

end Response

/-- `hyper_util::client::legacy::Error`. -/
structure ClientError where
  isConnect : Bool

/-- A response of the HTTP client, whose extensions hold nothing of this crate. -/
structure ClientResponse where
  response : Response
  cors_none : response.extensions.cors = none

end BreezeGateway
