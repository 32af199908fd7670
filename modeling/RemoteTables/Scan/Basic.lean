import RemoteTables.Batch.Basic
import RemoteTables.Connector

/-!
# Scans

A scan is the reading of one split, as a node of a query plan: it knows which columns come out, but
asks nothing until it is run. It has a single partition and no children. The connector is not a part
of it, so that it can be planned in one process and run in another.
-/

set_option autoImplicit false

namespace RemoteTables

/-- The reading of one split. -/
structure Scan where
  split : Split
  /-- All columns of the table. -/
  columns : List Column
  /-- The positions of the wanted columns; absent if all are. -/
  projection : Option (List Nat)
  /-- The wanted columns. -/
  schema : List Column
  deriving DecidableEq

namespace Scan

variable {ρ β : Type}

/-- The name of the node in plans. -/
def name : String := "RestScanExec"

/-- The scan of a split. The positions of the projection must be those of columns. -/
def make (c : Connector ρ β) (split : Split) (projection : Option (List Nat)) :
    Except ScanFault Scan := do
  let columns ← (c.columnsOf split.handle.table).mapError .connector
  return ⟨split, columns, projection, ← Batch.project columns projection⟩

/-- A scan as plans show it: what it is, and what it reads. -/
def display? (s : Scan) : Option String :=
  s.split.handle.display?.map fun handle => name ++ ": " ++ handle

/-- The node over other children, of which it can have none. -/
def withChildren (s : Scan) (children : Nat) : Except ScanFault Scan :=
  if children = 0 then .ok s else .error .hasChildren

/-- Runs the scan: its only partition is read, and the rows are handed on as a batch. The first
result is that of reading, the second that of storing. -/
def execute (c : Connector ρ β) (s : Scan) (partition : Nat) :
    Except ScanFault (Dialogue ρ β (Except ScanFault Batch)) :=
  if partition = 0 then
    .ok do
      let rows ← c.rows s.split
      return Batch.ofRows rows s.columns s.projection s.schema
  else .error (.noSuchPartition partition)

end Scan
end RemoteTables
