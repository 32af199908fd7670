import RemoteTables.Dialogue
import RemoteTables.Http.Reply
import RemoteTables.Http.Request
import RemoteTables.Url.Extend

/-!
# Endpoints

An endpoint is the address below which all resources of a server are, together with the rule that
makes the address of a request out of it. Whoever sends requests is given addresses and gives
replies; that is all this library knows of a network.

A segment that is empty or only points would not stay one segment, so a request with such a one is
refused before it is sent.
-/

set_option autoImplicit false

namespace RemoteTables

/-- The address that requests are made below. -/
structure Endpoint where
  base : Url
  deriving DecidableEq

namespace Endpoint

/-- The endpoint at an address, which must be one that segments can be added to. -/
def ofText (forms : DomainName.Forms) (text : String) : Except Failure Endpoint :=
  match Url.read forms text with
  | .error fault => .error (.config ("invalid base URL '" ++ text ++ "': " ++ fault.message))
  | .ok url =>
    match url.path with
    | .flat _ => .error (.config ("base URL '" ++ url.write ++ "' cannot carry a path"))
    | .segments _ => .ok ⟨url⟩

/-- Whether a segment would not stay one. -/
def vanishes (segment : String) : Bool := ["", ".", ".."].contains segment

/-- The address of a request. -/
def urlFor (e : Endpoint) (r : Request) : Except Failure Url :=
  match r.segments.find? vanishes with
  | some segment => .error (.invalidPathSegment segment)
  | none => .ok ((e.base.addSegments r.segments).addParameters r.query)

/-- The server behind an endpoint, when `send` answers at an address. -/
def server (e : Endpoint) (send : Url → Except Failure Reply) : Server Request Reply :=
  fun _ request => do send (← e.urlFor request)

end Endpoint
end RemoteTables
