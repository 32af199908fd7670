import RemoteTables.Batch.CellVector

/-!
# Batches

A batch hands rows on column by column. It is made of rows, the columns of their table, and a
projection, which says by position which of the columns are wanted, in which order, and how often.
The batch says itself how many rows it has, so that also one without columns has them.

Columns are stored one after another in the order of the projection, and the first that cannot be
stored is the fault: a position past the columns, then a row without a cell there, then a cell of
another type. Only when all are stored are columns without nulls looked at.
-/

set_option autoImplicit false

namespace RemoteTables

/-- Rows, column by column. -/
structure Batch where
  rowCount : Nat
  schema : List Column
  vectors : List CellVector

namespace Batch

/-- The wanted positions in order; without a projection all of them. -/
def positions (columns : List Column) (projection : Option (List Nat)) : List Nat :=
  projection.getD (List.range columns.length)

/-- The columns that a projection wants; each position must name one. -/
def project (columns : List Column) (projection : Option (List Nat)) :
    Except ScanFault (List Column) :=
  match projection with
  | none => .ok columns
  | some positions =>
    positions.mapM fun position =>
      match columns[position]? with
      | some column => .ok column
      | none => .error (.noSuchField position columns.length)

/-- The cell of a row that belongs to a column. A row may be too short to have one. -/
def cellAt (column : Column) (position : Nat) (row : Row) : Except ScanFault Value :=
  match row[position]? with
  | some cell => .ok cell
  | none => .error (.rowTooShort row.length column.name position)

/-- The cells of one wanted column, stored together. -/
def vectorAt (rows : List Row) (columns : List Column) (position : Nat) :
    Except ScanFault CellVector :=
  match columns[position]? with
  | none => .error (.noSuchColumn position)
  | some column => do
    let cells ← rows.mapM (cellAt column position)
    CellVector.ofValues column.name column.type cells

/-- Refuses nulls in a column that allows none. -/
def checkNulls : List Column → List CellVector → Except ScanFault Unit
  | column :: columns, vector :: vectors =>
    if !column.nullable && vector.hasNull then .error (.nullInRequired column.name)
    else checkNulls columns vectors
  | _, _ => .ok ()

/-- The batch of rows. The schema is that of the wanted columns. -/
def ofRows (rows : List Row) (columns : List Column) (projection : Option (List Nat))
    (schema : List Column) : Except ScanFault Batch := do
  let vectors ← (positions columns projection).mapM (vectorAt rows columns)
  checkNulls schema vectors
  return ⟨rows.length, schema, vectors⟩

/-- What can be read back from a batch, column by column. -/
def cells (b : Batch) : List (List Value) :=
  b.vectors.map fun vector => (List.range b.rowCount).map vector.cell

end Batch
end RemoteTables
