import RemoteTables.Literal
import RemoteTables.Column
import RemoteTables.Text.Quoted

/-!
# Cells and rows

A cell is null, a scalar or an array of cells; a row is a list of cells that lines up with the
columns of its table. Whether a cell may stand in a column is `Value.fits`, which takes null for a
value of every type; whether null may stand there at all is the column's own word.
-/

set_option autoImplicit false

namespace RemoteTables

/-- A cell. -/
inductive Value where
  | null
  | boolean (value : Bool)
  | bigInt (value : Int64)
  | double (value : Binary64)
  | varchar (value : String)
  /-- Milliseconds since the epoch. -/
  | timestamp (millis : Int64)
  | array (items : List Value)
  deriving Inhabited

/-- The cells of a record, in the order of the table's columns. -/
abbrev Row := List Value

namespace Value

/-! ## Making cells -/

/-- A text that may be missing. -/
def optVarchar : Option String → Value
  | none => null
  | some s => varchar s

/-- A number that may be missing. -/
def optBigInt : Option Int64 → Value
  | none => null
  | some i => bigInt i

/-- A truth value that may be missing. -/
def optBoolean : Option Bool → Value
  | none => null
  | some b => boolean b

/-- A time that may be missing. -/
def optTimestamp : Option Int64 → Value
  | none => null
  | some t => timestamp t

/-! ## Asking about cells -/

def isNull : Value → Bool
  | null => true
  | _ => false

/-- The cell as a literal, if it is a scalar that can be compared. -/
def literal? : Value → Option Literal
  | boolean b => some (.boolean b)
  | bigInt i => some (.bigInt i)
  | varchar s => some (.varchar s)
  | timestamp t => some (.timestamp t)
  | null | double _ | array _ => none

mutual
/-- Whether a cell is of a type. Null is of every type. -/
def fits : Value → ColumnType → Bool
  | null, _ => true
  | boolean _, .boolean => true
  | bigInt _, .bigInt => true
  | double _, .double => true
  | varchar _, .varchar => true
  | timestamp _, .timestamp => true
  | array items, .array element => allFit items element
  | _, _ => false

/-- Whether all items of an array are of a type. -/
def allFit : List Value → ColumnType → Bool
  | [], _ => true
  | item :: rest, type => fits item type && allFit rest type
end

/-! ## Cells in messages -/

/-- The layout of doubles in messages: an exponent below `10^-4` and from `10^16` on. -/
def doubleFormat : RealFormat := ⟨-3, 16, "NaN", "inf"⟩

mutual
/-- A cell as messages show it. -/
def display : Value → String
  | null => "Null"
  | boolean b => "Boolean(" ++ (if b then "true" else "false") ++ ")"
  | bigInt i => "BigInt(" ++ toString i.toInt ++ ")"
  | double x => "Double(" ++ doubleFormat.render x ++ ")"
  | varchar s => "Varchar(" ++ Text.quoted s ++ ")"
  | timestamp t => "Timestamp(" ++ toString t.toInt ++ ")"
  | array items => "Array(" ++ Text.bracketed (displays items) ++ ")"

def displays : List Value → List String
  | [] => []
  | item :: rest => display item :: displays rest
end

end Value

namespace Row

/-- Whether a row lines up with columns: one cell for each, of its type, and null only where the
column allows it. -/
def fits : Row → List Column → Bool
  | [], [] => true
  | cell :: cells, column :: columns =>
    cell.fits column.type && (column.nullable || !cell.isNull) && fits cells columns
  | _, _ => false

end Row
end RemoteTables
