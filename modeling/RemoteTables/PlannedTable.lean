import RemoteTables.Expression.Constraint
import RemoteTables.Scan.Basic

/-!
# Tables in a query plan

A table offered to a query engine. The engine hands over its filters twice: first one by one, to
learn which of them it need not look at again, and then all together, when it plans the reading. A
filter is `exact` if the table enforces everything it says; it is `inexact` if something is pushed
but has to be looked at again; and one that cannot be expressed, or would push nothing, stays with
the engine altogether.

The plan has one scan for each split. No splits make a plan without scans, which still knows its
columns.
-/

set_option autoImplicit false

namespace RemoteTables

/-- What becomes of a filter that the engine offers. -/
inductive FilterUse where
  | exact
  | inexact
  | unsupported
  deriving DecidableEq

/-- A table offered to a query engine. -/
structure PlannedTable where
  handle : TableHandle
  /-- The columns of the table. -/
  schema : List Column
  deriving DecidableEq

/-- The reading of a table: what comes out, and from which scans. -/
structure Plan where
  schema : List Column
  scans : List Scan
  deriving DecidableEq

namespace PlannedTable

variable {ρ β : Type}

/-- A table as the planner sees it, for a handle to it. -/
def make (c : Connector ρ β) (h : TableHandle) : Except Failure PlannedTable := do
  return ⟨h, ← c.columnsOf h.table⟩

def references (t : PlannedTable) : List ColumnRef := t.schema.map Column.ref

/-- What becomes of a filter. -/
def classify (c : Connector ρ β) (t : PlannedTable) (filter : Expression) :
    Except Failure FilterUse :=
  match filter.constraint? t.references with
  | none => .ok .unsupported
  | some constraint => do
    match ← c.applyFilter t.handle constraint with
    | none => return .unsupported
    | some pushed =>
      return if filter.referencedColumns.any pushed.leaves then .inexact else .exact

/-- The constraint of all filters that can be expressed. -/
def conjunction (t : PlannedTable) (filters : List Expression) : Constraint :=
  (filters.filterMap (Expression.constraint? t.references)).foldl Constraint.intersect .all

/-- The handle with the filters pushed, and then the limit. -/
def planHandle (c : Connector ρ β) (t : PlannedTable) (filters : List Expression)
    (limit : Option UInt64) : Except Failure TableHandle := do
  let pushed ← c.applyFilter t.handle (t.conjunction filters)
  let handle := (pushed.map Pushed.handle).getD t.handle
  return (limit.bind handle.lowerLimit?).getD handle

/-- Plans a scan: the filters and the limit go into the handle as far as it takes them, the handle
is split, and each split becomes one scan of the wanted columns. -/
def plan (c : Connector ρ β) (t : PlannedTable) (projection : Option (List Nat))
    (filters : List Expression) (limit : Option UInt64) : Except ScanFault Plan := do
  let handle ← (t.planHandle c filters limit).mapError .connector
  let splits ← (c.splits handle none).mapError .connector
  let scans ← splits.mapM fun split => Scan.make c split projection
  return ⟨← Batch.project t.schema projection, scans⟩

end PlannedTable

/-! ## The schema as a catalog shows it -/

namespace Connector

variable {ρ β : Type} (c : Connector ρ β)

/-- The schema of a connector as messages show it. -/
def describeSchema : String := Text.record "RestSchemaProvider" [("schema", Text.quoted c.schema)]

/-- The table of a name in the schema, offered to an engine. -/
def offer? (name : String) : Option PlannedTable :=
  match c.handleFor? ⟨c.schema, name⟩ with
  | some handle => (PlannedTable.make c handle).toOption
  | none => none

end Connector
end RemoteTables
