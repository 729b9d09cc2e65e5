import BreezeGateway.Admission
import BreezeGateway.Http.Router

/-!
# Compiled path policies

`src/redis_admission/policy.rs`.  JSON decoding, the parsing of request targets and the route
index are parameters.
-/

namespace BreezeGateway

inductive MatchKind where
  | prefixed
  | exact
deriving DecidableEq

structure PathRule where
  path : String
  kind : MatchKind
deriving DecidableEq

structure PolicyConfig where
  caseLimit : Option ℕ
  includes : List PathRule
  excludes : List PathRule
deriving DecidableEq

def PolicyConfig.default : PolicyConfig := ⟨none, [], []⟩

structure Address where
  url : String
  owner : String

/-- What the Redis admission takes from other crates. -/
structure Libraries (Index : Type) extends Router Index where
  /-- `str::parse::<http::Uri>`. -/
  parseUri : String → Except String Uri
  /-- `serde_json::from_slice::<PolicyConfig>`. -/
  decodePolicy : Bytes → Except String PolicyConfig
  /-- `serde_json::from_str::<Address>`. -/
  decodeAddress : String → Option Address

/-- Libraries that know one recorder and no routes. -/
def soloLibraries : Libraries Unit where
  compile _ := .ok ()
  selected _ _ _ := none
  isMatch _ _ _ := false
  parseUri text :=
    if text = "http://r" then .ok ⟨some "http", some "r", ⟨"", none⟩⟩ else .error "invalid uri"
  decodePolicy _ := .error "invalid policy"
  decodeAddress _ := none

namespace Policy

variable {Index : Type} (lib : Libraries Index)

def invalid (message : String) : AdmissionError := .backend message

def indexed (path : String) : IndexedRouteRule := ⟨path, [], 0⟩

def validatePath (path : String) : Except AdmissionError Unit :=
  match lib.parseUri path with
  | .error message => .error (.backend message)
  | .ok uri =>
      if path.toList.head? ≠ some '/' ∨ uri.path ≠ path ∨ uri.query.isSome ∨ '#' ∈ path.toList then
        .error (invalid "policy rules require an absolute path without query or fragment")
      else .ok ()

def compileIndex (rules : List IndexedRouteRule) : Except AdmissionError Index :=
  match lib.compile rules with
  | .error message => .error (.backend message)
  | .ok index => .ok index

/-- `segment.starts_with([':', '*'])`. -/
def isPattern (segment : List Char) : Bool :=
  match segment with
  | c :: _ => c == ':' || c == '*'
  | [] => false

/-- `path.trim_end_matches('/')`. -/
def trimSlashes (path : String) : String := 
  String.ofList (path.toList.reverse.dropWhile (· == '/')).reverse

def addPrefix (rules : List IndexedRouteRule) (path : String) :
    Except AdmissionError (List IndexedRouteRule) :=
  if path.toList.head? ≠ some '/' ∨ (path.toList.splitOn '/').any isPattern then
    .error (invalid "prefix paths must be absolute literal paths")
  else
    let base := trimSlashes path
    .ok (rules ++ [indexed (if base = "" then "/" else base),
      indexed (base ++ "/*__breeze_policy_path")])

end Policy

structure CompiledPolicy (Index : Type) where
  caseLimit : Option ℕ
  includesAll : Bool
  exact : Index
  exactPaths : List String
  prefixes : Index
  excludes : Index

namespace CompiledPolicy

open Policy

variable {Index : Type} (lib : Libraries Index)

/-- The vectors filled by the loop over `includes`. -/
structure Includes where
  exact : List IndexedRouteRule
  exactPaths : List String
  prefixes : List IndexedRouteRule

def addInclude (acc : Includes) (rule : PathRule) : Except AdmissionError Includes := do
  validatePath lib rule.path
  match rule.kind with
  | .exact =>
      pure { acc with
        exactPaths := acc.exactPaths ++ [rule.path]
        exact := acc.exact ++ [indexed rule.path] }
  | .prefixed => pure { acc with prefixes := ← addPrefix acc.prefixes rule.path }

def addExclude (acc : List IndexedRouteRule) (rule : PathRule) :
    Except AdmissionError (List IndexedRouteRule) := do
  validatePath lib rule.path
  match rule.kind with
  | .exact => pure (acc ++ [indexed rule.path])
  | .prefixed => addPrefix acc rule.path

def compile (config : PolicyConfig) : Except AdmissionError (CompiledPolicy Index) := do
  if config.caseLimit.any (· > i64Max) then
    throw (invalid "case-limit must fit a nonnegative Redis integer")
  let includes ← config.includes.foldlM (addInclude lib) ⟨[], [], []⟩
  let excludes ← config.excludes.foldlM (addExclude lib) []
  pure {
    caseLimit := config.caseLimit
    includesAll := config.includes.isEmpty
    exact := ← compileIndex lib includes.exact
    exactPaths := includes.exactPaths
    prefixes := ← compileIndex lib includes.prefixes
    excludes := ← compileIndex lib excludes }

/-- The field a path counts on.  The id of a selected route is its index in `exact_paths`. -/
def api (policy : CompiledPolicy Index) (path : String) : Option String :=
  if policy.caseLimit = some 0 ∨ lib.isMatch policy.excludes "GET" path then none
  else
    match lib.selected policy.exact "GET" path with
    | some id => policy.exactPaths[id]?
    | none => if policy.includesAll ∨ lib.isMatch policy.prefixes "GET" path then some path else none

end CompiledPolicy

end BreezeGateway
