import BreezeGateway.Http.Router
import BreezeGateway.Http.Header
import BreezeGateway.Admission

/-!
# Route tables

`src/config.rs`: rules, their compilation and the selection of a route.
-/

namespace BreezeGateway

structure AdmissionRule where
  provider : String
  scope : String
  acquireTimeoutMs : ℕ
deriving DecidableEq

def AdmissionRule.isValid (rule : AdmissionRule) : Bool :=
  !trimIsEmpty rule.provider && !trimIsEmpty rule.scope && isAscii rule.scope &&
    (HeaderValue.fromStr rule.scope).isSome && decide (rule.acquireTimeoutMs > 0)

structure RouteRule where
  methods : List String
  path : String
  admission : Option AdmissionRule

structure ExclusionRule where
  methods : List String
  path : String

structure RoutesConfig where
  routes : List RouteRule
  exclude : List ExclusionRule

/-- `ConfigError`, without the errors of reading a file. -/
inductive ConfigError where
  | invalidMethod (index : ℕ) (method : String)
  | invalidExclusionMethod (index : ℕ) (method : String)
  | exclusionRoute (message : String)
  | invalidAdmission (index : ℕ)
  | route (message : String)

/-- A router with the index that `RouteIndex::default()` is. -/
structure Routing (Index : Type) extends Router Index where
  default : Index

structure RouteTable (Index : Type) where
  index : Index
  exclusions : Index
  admissions : List (Option AdmissionRule)

namespace RouteTable

variable {Index : Type} (lib : Routing Index)

def empty : RouteTable Index := ⟨lib.default, lib.default, []⟩

def parseMethods (invalid : String → ConfigError) (methods : List String) :
    Except ConfigError (List Method) :=
  methods.mapM fun method =>
    match Method.fromStr method with
    | some m => .ok m
    | none => .error (invalid method)

def compileExclusion (rule : ExclusionRule × ℕ) : Except ConfigError IndexedRouteRule := do
  let methods ← parseMethods (.invalidExclusionMethod rule.2) rule.1.methods
  pure ⟨rule.1.path, methods, 0⟩

/-- One turn of the closure over the routes, which pushes to the vector `admissions`. -/
def compileRoute (acc : List (Option AdmissionRule) × List IndexedRouteRule) (rule : RouteRule × ℕ) :
    Except ConfigError (List (Option AdmissionRule) × List IndexedRouteRule) := do
  if rule.1.admission.any (!·.isValid) then throw (.invalidAdmission rule.2)
  let admissions := acc.1 ++ [rule.1.admission]
  let methods ← parseMethods (.invalidMethod rule.2) rule.1.methods
  pure (admissions, acc.2 ++ [⟨rule.1.path, methods, 0⟩])

def compileIndex (error : String → ConfigError) (rules : List IndexedRouteRule) :
    Except ConfigError Index :=
  match lib.compile rules with
  | .ok index => .ok index
  | .error message => .error (error message)

def compile (config : RoutesConfig) : Except ConfigError (RouteTable Index) := do
  let exclusions ← config.exclude.zipIdx.mapM compileExclusion
  let exclusions ← compileIndex lib .exclusionRoute exclusions
  let (admissions, routes) ← config.routes.zipIdx.foldlM compileRoute ([], [])
  let index ← compileIndex lib .route routes
  pure ⟨index, exclusions, admissions⟩

variable (self : RouteTable Index)

def isExcluded (method : Method) (path : String) : Bool :=
  lib.isMatch self.exclusions method.name path

def select (method : Method) (path : String) : Option ℕ :=
  if self.isExcluded lib method path then none else lib.selected self.index method.name path

end RouteTable

end BreezeGateway
