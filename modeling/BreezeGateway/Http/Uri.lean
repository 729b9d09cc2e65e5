import BreezeGateway.Text

/-!
# Request targets

`http::Uri` with the accessors the gateway uses.  A path may be empty in the data of a
`PathAndQuery`; its accessors then answer `/`.
-/

namespace BreezeGateway

structure PathAndQuery where
  rawPath : String
  query : Option String
deriving DecidableEq

namespace PathAndQuery

def data (p : PathAndQuery) : String :=
  match p.query with
  | none => p.rawPath
  | some q => p.rawPath ++ "?" ++ q

def asStr (p : PathAndQuery) : String := if p.data = "" then "/" else p.data

def path (p : PathAndQuery) : String := if p.rawPath = "" then "/" else p.rawPath

end PathAndQuery

structure Uri where
  scheme : Option String
  authority : Option String
  rawPathAndQuery : PathAndQuery
deriving DecidableEq

namespace Uri

def path (u : Uri) : String :=
  if u.rawPathAndQuery.data ≠ "" ∨ u.scheme.isSome then u.rawPathAndQuery.path else ""

def query (u : Uri) : Option String := u.rawPathAndQuery.query

def pathAndQuery (u : Uri) : Option PathAndQuery :=
  if u.scheme.isSome ∨ u.authority = none then some u.rawPathAndQuery else none

/-- The shape that `AdmissionTicket::with_origin` and `FallbackProxy::new` ask for. -/
def isHttpOrigin (u : Uri) : Bool :=
  u.scheme == some "http" && u.authority.isSome && u.path == "/" && u.query.isNone

theorem authority_isSome_of_isHttpOrigin {u : Uri} (h : u.isHttpOrigin = true) :
    u.authority.isSome = true := by
  simp only [isHttpOrigin, Bool.and_eq_true] at h
  exact h.1.1.2

end Uri

end BreezeGateway
