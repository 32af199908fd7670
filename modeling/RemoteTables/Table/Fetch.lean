import RemoteTables.Handle
import RemoteTables.Value
import RemoteTables.Listing.Window

/-!
# What is handed to a table when it is read

Besides the handle, a table is told the sort in the server's own words, and which of its columns it
has to enforce. An enforced column is one that no engine will look at again, so a row only counts if
its cell in that column is a literal of the column's domain (`FetchRequest.accepts`). The test is
made of every row, also of those that a parameter of the request should have narrowed already: a
server may understand a parameter more widely than the column.
-/

set_option autoImplicit false

namespace RemoteTables

/-- A sort as the server calls it. -/
structure RemoteSort where
  key : String
  direction : SortDirection
  deriving DecidableEq

/-- What a table is asked for. -/
structure FetchRequest where
  handle : TableHandle
  /-- The requested sort, or else the table's own; absent if the table cannot sort. -/
  sort : Option RemoteSort
  /-- The enforced columns, by their position in a row, with their domains. -/
  enforced : List (Nat × Domain)
  deriving DecidableEq

namespace FetchRequest

def constraint (r : FetchRequest) : Constraint := r.handle.constraint

def limit (r : FetchRequest) : UInt64 := r.handle.limit

def window (r : FetchRequest) : PageWindow := r.handle.window

/-- Whether a cell satisfies a domain: it must be a literal, and one of the domain's. -/
def cellIn (domain : Domain) (cell : Option Value) : Bool :=
  match cell.bind Value.literal? with
  | some v => domain.includes v
  | none => false

/-- Whether a row satisfies every enforced column. -/
def accepts (r : FetchRequest) (row : Row) : Bool :=
  r.enforced.all fun (position, domain) => cellIn domain row[position]?

end FetchRequest
end RemoteTables
