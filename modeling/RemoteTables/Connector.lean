import RemoteTables.Table.Definition
import RemoteTables.LateFilter
import RemoteTables.Settings

/-!
# Connectors

A connector serves the tables of one schema. Everything asked of it is a look-up of the table
followed by a step on a handle, or by reading: the handle comes in, another handle or the rows come
out, and the connector itself never changes.

A step that would change nothing gives `none`, so that whoever plans can tell that nothing was
pushed. Limits and sorts are hints and are only ever tightened; the engine applies its own as well.
Splits are made in this order: the constraint that a late filter has found out is pushed first, then
the equality columns are exploded, and last every handle is cut into page windows, if the table is
one of those that the settings list.
-/

set_option autoImplicit false

namespace RemoteTables

/-- The tables of a schema. -/
structure Connector (ρ β : Type) where
  schema : String
  /-- The tables in the order of their names, one for each name. -/
  tables : List (TableDefinition ρ β)
  settings : Settings

/-- Why a table cannot be written to: none can. -/
def TableName.writeFailure (name : TableName) : Failure := .unsupportedWrite name.display

namespace Connector

variable {ρ β : Type}

/-! ## The tables -/

/-- Puts a table where its name belongs, in place of one of the same name. -/
def insertTable (t : TableDefinition ρ β) :
    List (TableDefinition ρ β) → List (TableDefinition ρ β)
  | [] => [t]
  | u :: rest =>
    match compare t.name u.name with
    | .lt => t :: u :: rest
    | .eq => t :: rest
    | .gt => u :: insertTable t rest

/-- A connector for tables; of two with one name the later counts. -/
def ofTables (schema : String) (tables : List (TableDefinition ρ β)) (settings : Settings) :
    Connector ρ β :=
  ⟨schema, tables.foldl (fun sorted t => insertTable t sorted) [], settings⟩

variable (c : Connector ρ β)

/-- The names of the tables, in the order in which they are kept. -/
def tableNames : List String := c.tables.map TableDefinition.name

/-- The tables of a schema, or of every schema. -/
def listTables (schema : Option String) : List TableName :=
  if schema.all (· == c.schema) then c.tableNames.map (TableName.mk c.schema) else []

/-- The table of a name, which must be of this schema. -/
def tableFor (name : TableName) : Except Failure (TableDefinition ρ β) :=
  if name.schema = c.schema then
    match c.tables.find? fun t => t.name == name.table with
    | some t => .ok t
    | none => .error (.unknownTable name.table)
  else .error (.unknownTable name.display)

def columnsOf (name : TableName) : Except Failure (List Column) :=
  (c.tableFor name).map TableDefinition.columns

/-- The columns that a handle may speak of: those of its table. -/
def referencesOf (h : TableHandle) : Except Failure (List ColumnRef) :=
  (c.tableFor h.table).map TableDefinition.references

/-- A handle to all of a table, if there is such a table. -/
def handleFor? (name : TableName) : Option TableHandle :=
  match c.tableFor name with
  | .ok _ => some (.ofTable name)
  | .error _ => none

/-! ## Steps on handles -/

/-- Asks a handle's table for its first rows in a sort. Only the first sort item is looked at. -/
def applyTopN (h : TableHandle) (n : UInt64) (items : List SortItem) :
    Except Failure (Option TableHandle) :=
  match items with
  | [] => .ok none
  | first :: _ => do
    let t ← c.tableFor h.table
    if (t.remoteSort? first).isNone then
      throw (.invalidOrderBy first.display (t.sorts.map fun s => s.item.display))
    let updated := (h.withSortOrder [first]).withLimit (min n h.limit)
    return if updated = h then none else some updated

/-- Offers a constraint to a handle. What the rules of its table take goes into the handle, and the
rest is handed back; nothing comes back if nothing was taken. -/
def applyFilter (h : TableHandle) (constraint : Constraint) : Except Failure (Option Pushed) := do
  let t ← c.tableFor h.table
  match t.rules with
  | none => return none
  | some rules => return rules.push t.references h constraint

/-! ## Splits and rows -/

/-- The handles for so many page windows. -/
def cut (windows : UInt32) (h : TableHandle) : List TableHandle :=
  (List.range windows.toNat).map fun k => h.withPageWindow (.ofNat k) windows

/-- The handles that together read what a handle reads, each for one worker. -/
def splitHandles (h : TableHandle) : Except Failure (List TableHandle) := do
  let t ← c.tableFor h.table
  let handles := t.explode h
  let windows := c.settings.splitsFor t.name
  return if windows ≤ 1 then handles else handles.flatMap (cut windows)

/-- A handle narrowed by what a late filter has found out, as far as the table takes it. -/
def narrow (h : TableHandle) (late : Option LateFilter) : Except Failure TableHandle := do
  match late with
  | none => return h
  | some late =>
    let pushed ← c.applyFilter h late.awaited
    return (pushed.map Pushed.handle).getD h

/-- The splits of a handle, narrowed by a late filter if there is one. -/
def splits (h : TableHandle) (late : Option LateFilter) : Except Failure (List Split) := do
  let narrowed ← c.narrow h late
  return (← c.splitHandles narrowed).map Split.ofHandle

/-- Reads the rows of a split. -/
def rows (split : Split) : Dialogue ρ β (List Row) := do
  let t ← .ofExcept (c.tableFor split.handle.table)
  t.read split.handle

/-! ## In messages -/

/-- The connector in messages: its schema, its tables and its settings. -/
def describe : String :=
  "RestAdapter \x7b schema_name: " ++ Text.quoted c.schema
    ++ ", tables: " ++ Text.bracketed (c.tableNames.map Text.quoted)
    ++ ", config: " ++ c.settings.describe ++ ", .. \x7d"

end Connector
end RemoteTables
