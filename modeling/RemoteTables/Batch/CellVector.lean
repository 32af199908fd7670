import RemoteTables.Scan.Fault

/-!
# Columns of cells, stored together

The cells of one column are stored by kind, in one vector. A scalar cell may be empty. An array cell
has no place of its own: the items of all arrays of the column stand in one vector of items, one
array after another, and the column keeps where each array starts and ends, and which of them are
null. A null array takes no items, so it starts where it ends, as an empty one does, and only the
mask tells the two apart. Items may be arrays again, to any depth.

`ofValues` stores a list of cells and `cell` reads one back. Positions are natural numbers here. A
library that keeps them in 32 bits has room for fewer than `2 ^ 31` items in the arrays of a column,
and for less than two gibibytes of text; that capacity is left out.
-/

set_option autoImplicit false

namespace RemoteTables

/-- The stored cells of a column. -/
inductive CellVector where
  | booleans (cells : Array (Option Bool))
  | integers (cells : Array (Option Int64))
  | doubles (cells : Array (Option Binary64))
  | texts (cells : Array (Option String))
  | instants (cells : Array (Option Int64))
  /-- Array `i` has the items from `offsets[i]` up to `offsets[i + 1]`, if it is present. -/
  | arrays (present : Array Bool) (offsets : Array Nat) (items : CellVector)

namespace CellVector

/-! ## Storing -/

/-- Stores scalar cells; one that is of another kind does not fit. -/
def scalars {α : Type} (column : String) (type : ColumnType) (read : Value → Option α)
    (cells : List Value) : Except ScanFault (Array (Option α)) := do
  let stored ← cells.mapM fun cell =>
    match cell with
    | .null => .ok none
    | _ => match read cell with
      | some value => .ok (some value)
      | none => .error (.mismatch column type cell)
  return stored.toArray

/-- The items of array cells, `none` where a cell is null; any other cell does not fit. -/
def arraysOf (column : String) (type : ColumnType) (cells : List Value) :
    Except ScanFault (List (Option (List Value))) :=
  cells.mapM fun cell =>
    match cell with
    | .array items => .ok (some items)
    | .null => .ok none
    | _ => .error (.mismatch column type cell)

/-- Where lists of the given lengths start when they stand one after another, and where the last one
ends. -/
def offsetsFrom (start : Nat) : List Nat → List Nat
  | [] => [start]
  | length :: rest => start :: offsetsFrom (start + length) rest

/-- Stores the cells of a column, which must be null or of its type. Arrays are stored as one list
of all their items, by recursion on the type. -/
def ofValues (column : String) : ColumnType → List Value → Except ScanFault CellVector
  | .boolean, cells =>
    booleans <$> scalars column .boolean (fun | .boolean b => some b | _ => none) cells
  | .bigInt, cells =>
    integers <$> scalars column .bigInt (fun | .bigInt i => some i | _ => none) cells
  | .double, cells =>
    doubles <$> scalars column .double (fun | .double x => some x | _ => none) cells
  | .varchar, cells =>
    texts <$> scalars column .varchar (fun | .varchar s => some s | _ => none) cells
  | .timestamp, cells =>
    instants <$> scalars column .timestamp (fun | .timestamp t => some t | _ => none) cells
  | .array element, cells => do
    let lists ← arraysOf column (.array element) cells
    let contents := lists.map fun list => list.getD []
    let items ← ofValues column element contents.flatten
    return arrays (lists.map Option.isSome).toArray
      (offsetsFrom 0 (contents.map List.length)).toArray items

/-! ## Reading back -/

/-- The cell at a position of a vector; null past the end. -/
def cell : CellVector → Nat → Value
  | booleans cells, i => .optBoolean cells[i]?.join
  | integers cells, i => .optBigInt cells[i]?.join
  | doubles cells, i =>
    match cells[i]?.join with
    | some x => .double x
    | none => .null
  | texts cells, i => .optVarchar cells[i]?.join
  | instants cells, i => .optTimestamp cells[i]?.join
  | arrays present offsets items, i =>
    if present.getD i false then
      let start := offsets.getD i 0
      .array ((List.range (offsets.getD (i + 1) 0 - start)).map fun k => items.cell (start + k))
    else .null

/-- Whether a cell is empty. The items of arrays do not count. -/
def hasNull : CellVector → Bool
  | booleans cells => cells.any Option.isNone
  | integers cells => cells.any Option.isNone
  | doubles cells => cells.any Option.isNone
  | texts cells => cells.any Option.isNone
  | instants cells => cells.any Option.isNone
  | arrays present _ _ => present.any (!·)

end CellVector
end RemoteTables
