import RemoteTables.Table.Fetch
import RemoteTables.Pushdown
import RemoteTables.Dialogue

/-!
# Tables

A table is its columns, what it can narrow and sort by itself, and the dialogue by which it is read.
The dialogue is a function of what the table is asked for and of nothing else, so a table holds no
state.

A column may be sorted by in both directions. The sorts keep the order in which they were given,
descending before ascending, and the first of all is the one that the table is read in when nobody
asks for a sort.
-/

set_option autoImplicit false

namespace RemoteTables

/-- A sort that a table can do, with the server's name for the column. -/
structure SupportedSort where
  item : SortItem
  key : String
  deriving DecidableEq

/-- The sorts of columns, both directions of each, from the columns' names here and there. -/
def SupportedSort.bothWays (columns : List (String × String)) : List SupportedSort :=
  columns.flatMap fun (name, key) => [⟨⟨name, .descending⟩, key⟩, ⟨⟨name, .ascending⟩, key⟩]

/-- A table of a connector. -/
structure TableDefinition (ρ β : Type) where
  name : String
  columns : List Column
  /-- What the table narrows itself; absent if it takes no constraint at all. -/
  rules : Option FilterRules
  sorts : List SupportedSort
  /-- How the table is read. -/
  fetch : FetchRequest → Dialogue ρ β (List Row)

namespace TableDefinition

variable {ρ β : Type} (t : TableDefinition ρ β)

def references : List ColumnRef := t.columns.map Column.ref

/-- The order of the server for an order of the table, if the table has that. -/
def remoteSort? (item : SortItem) : Option RemoteSort :=
  (t.sorts.find? fun s => s.item == item).map fun s => ⟨s.key, s.item.direction⟩

/-- The order of the server where none is asked for: the first one the table has. -/
def defaultSort? : Option RemoteSort := t.sorts.head?.map fun s => ⟨s.key, s.item.direction⟩

/-- The sort that a handle is read in: its first item, if the table can do it. -/
def sortOf (h : TableHandle) : Option RemoteSort :=
  ((h.sortOrder.bind List.head?).bind t.remoteSort?) <|> t.defaultSort?

/-- The place of a column in the rows; of several with one name the first. -/
def position? (column : String) : Option Nat :=
  let position := t.columns.findIdx fun c => c.name == column
  if position < t.columns.length then some position else none

/-- The check of one entry: a domain, and the place of the cell that must be in it. -/
def check (entry : ColumnDomain) : Except Failure (Nat × Domain) :=
  match t.position? entry.column.name with
  | some position => .ok (position, entry.domain)
  | none => .error (.unknownColumn (t.name ++ "." ++ entry.column.name))

/-- The checks of a constraint: one for every entry on a column that the table holds equal to a
value. Such a column that the table does not have is a failure. -/
def checks (c : Constraint) : Except Failure (List (Nat × Domain)) :=
  match t.rules with
  | none => .ok []
  | some rules =>
    (c.entries.filter fun entry => rules.kindOf entry.column.name = .equal).mapM t.check

/-- The handles that together read what a handle reads. -/
def explode (h : TableHandle) : List TableHandle :=
  match t.rules with
  | some rules => rules.explode h
  | none => if h.constraint.isNone then [] else [h]

/-- Reads the rows of a handle, unless it is plain that there are none. Whatever the table makes of
the request, only accepted rows come out. -/
def read (h : TableHandle) : Dialogue ρ β (List Row) :=
  if h.limit = 0 ∨ h.constraint.isNone then .done []
  else do
    let enforced ← .ofExcept (t.checks h.constraint)
    let request : FetchRequest := ⟨h, t.sortOf h, enforced⟩
    let rows ← t.fetch request
    return rows.filter request.accepts

end TableDefinition
end RemoteTables
