/-!
# Requests

A request reads one resource. The parts of its path are kept apart, and so are the parameters, so
that a value which comes from a query (an owner, a repository) stays one part whatever characters it
has. Only what sends the request puts the parts together.
-/

set_option autoImplicit false

namespace RemoteTables

/-- A request for a resource. -/
structure Request where
  /-- The parts of the path. -/
  segments : List String
  /-- The parameters, in order. -/
  query : List (String × String)
  deriving DecidableEq, Inhabited

namespace Request

/-- The request for a path, without parameters. -/
def ofPath (segments : List String) : Request := ⟨segments, []⟩

/-- The path with slashes between its parts, as messages show it. -/
def path (r : Request) : String := "/" ++ String.intercalate "/" r.segments

/-- The request with one more parameter, behind the others. -/
def param (r : Request) (key value : String) : Request :=
  { r with query := r.query ++ [(key, value)] }

/-- The request with one more parameter if there is a value for it. -/
def paramIfAny (r : Request) (key : String) (value : Option String) : Request :=
  match value with
  | some value => r.param key value
  | none => r

/-- The value of a parameter; of several with one name the first. -/
def value? (r : Request) (key : String) : Option String := r.query.lookup key

end Request
end RemoteTables
