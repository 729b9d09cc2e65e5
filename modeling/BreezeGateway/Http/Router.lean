import BreezeGateway.Http.Header

/-!
# Methods and route indexes

The matching of `brz_http_router` is a parameter: the gateway only depends on its answers.
-/

namespace BreezeGateway

def isMethodByte (b : UInt8) : Bool := isNameByte (lowerByte b)

def isMethod (bytes : Bytes) : Bool := !bytes.isEmpty && bytes.all isMethodByte

structure Method where
  name : String
  valid : isMethod (utf8 name) = true
deriving DecidableEq

namespace Method

/-- `Method::from_bytes` on the bytes of a string. -/
def fromStr (name : String) : Option Method :=
  if h : isMethod (utf8 name) = true then some ⟨name, h⟩ else none

def get : Method := ⟨"GET", by decide⟩

def options : Method := ⟨"OPTIONS", by decide⟩

end Method

/-- `brz_http_router::IndexedRouteRule`; no methods means every method. -/
structure IndexedRouteRule where
  path : String
  methods : List Method
  rank : ℕ
deriving DecidableEq

/-- `brz_http_router::RouteIndex` over a type of compiled indexes. -/
structure Router (Index : Type) where
  compile : List IndexedRouteRule → Except String Index
  /-- `resolve(method, path, PathMode::Raw).selected().map(|route| route.id())`. -/
  selected : Index → String → String → Option ℕ
  /-- `matches` and `matches_str`. -/
  isMatch : Index → String → String → Bool

end BreezeGateway
