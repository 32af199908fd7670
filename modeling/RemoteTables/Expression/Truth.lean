import RemoteTables.Expression.Basic

/-!
# What an expression comes to on a row

A condition is true, false or unknown: a comparison with null is unknown, and the connectives go by
three values. A row passes a filter only if the condition is true. This is the reading that an
engine gives to its filters, written down so that a constraint made of one can be compared with it.

Values are compared within a kind: texts by code point, whole numbers as numbers whatever their
width, instants as instants whatever unit they are counted in. What lies beyond (arithmetic, casts,
patterns, doubles, comparisons across kinds) no table takes from the engine, so it is left to the
engine (`Engine`), and nothing depends on how it decides.
-/

set_option autoImplicit false

namespace RemoteTables

/-- What a condition comes to; `none` is unknown. -/
abbrev Truth := Option Bool

namespace Truth

/-- Conjunction. What is unknown does not matter beside what is false. -/
def both : Truth → Truth → Truth
  | some false, _ | _, some false => some false
  | some true, some true => some true
  | _, _ => none

/-- Disjunction. What is unknown does not matter beside what is true. -/
def either : Truth → Truth → Truth
  | some true, _ | _, some true => some true
  | some false, some false => some false
  | _, _ => none

/-- Whether one of some conditions holds. -/
def any (conditions : List Truth) : Truth := conditions.foldr either (some false)

/-- A condition or its negation; what is unknown stays so. -/
def signed (negated : Bool) (t : Truth) : Truth := t.map fun b => b != negated

end Truth

/-- The value of a scalar expression. -/
inductive Datum where
  | null
  | boolean (value : Bool)
  | integer (value : Int)
  | double (value : Binary64)
  | text (value : String)
  /-- Days since the epoch. -/
  | date (days : Int)
  /-- Nanoseconds since the epoch. -/
  | instant (nanos : Int)
  | array (items : List Value)

namespace Datum

def isNull : Datum → Bool
  | null => true
  | _ => false

/-- How two data compare, if they are of one kind that has an order. -/
def order? : Datum → Datum → Option Ordering
  | boolean a, boolean b => some (compare a b)
  | integer a, integer b => some (compare a b)
  | text a, text b => some (compare a b)
  | date a, date b => some (compare a b)
  | instant a, instant b => some (compare a b)
  | _, _ => none

end Datum

/-- The nanoseconds of a tick. -/
def TimeUnit.nanos : TimeUnit → Int
  | second => 1000000000
  | millisecond => 1000000
  | microsecond => 1000
  | nanosecond => 1

/-- The datum of a cell. Times are compared in nanoseconds, whatever unit they are kept in. -/
def Value.datum : Value → Datum
  | null => .null
  | boolean b => .boolean b
  | bigInt i => .integer i.toInt
  | double x => .double x
  | varchar s => .text s
  | timestamp millis => .instant (millis.toInt * TimeUnit.millisecond.nanos)
  | array items => .array items

/-- The datum of a constant in an expression; one without a value is null. -/
def Scalar.datum : Scalar → Datum
  | text (some s) => .text s
  | boolean (some b) => .boolean b
  | integer _ (some i) => .integer i
  | double (some x) => .double x
  | date (some days) => .date days
  | instant unit (some ticks) => .instant (ticks.toInt * unit.nanos)
  | _ => .null

/-- What is left to the engine. -/
structure Engine where
  /-- The value of an expression that is neither a column nor a constant. -/
  value : Expression → Row → Datum
  /-- A comparison of values that have no order among each other here. -/
  compare : Operator → Datum → Datum → Truth

/-- What an operator asks of the order of two values, if it is a comparison. -/
def Operator.comparison? : Operator → Option (Ordering → Bool)
  | eq => some Ordering.isEq
  | ne => some Ordering.isNe
  | lt => some Ordering.isLT
  | le => some Ordering.isLE
  | gt => some Ordering.isGT
  | ge => some Ordering.isGE
  | _ => none

/-- The comparison of two values; with null it is unknown. -/
def Engine.compared (engine : Engine) (op : Operator) (a b : Datum) : Truth :=
  if a.isNull || b.isNull then none
  else
    match a.order? b, op.comparison? with
    | some order, some asks => some (asks order)
    | _, _ => engine.compare op a b

/-- The cell of a column in a row that lines up with the columns; null if there is none. -/
def Row.cell (row : Row) (columns : List ColumnRef) (name : String) : Value :=
  let position := columns.findIdx fun c => c.name == name
  if position < columns.length then row[position]?.getD .null else .null

namespace Expression

variable (engine : Engine) (columns : List ColumnRef) (row : Row)

/-- The value of an expression on a row. -/
def value : Expression → Datum
  | column _ name => (row.cell columns name).datum
  | literal s => s.datum
  | named e _ => value e
  | e => engine.value e row

/-- A value where a condition is expected. -/
def condition : Datum → Truth
  | .boolean b => some b
  | _ => none

/-- What a condition comes to on a row. -/
def truth : Expression → Truth
  | named e _ => truth e
  | not e => Truth.signed true (truth e)
  | isNull e => some (value engine columns row e).isNull
  | binary .and left right => Truth.both (truth left) (truth right)
  | binary .or left right => Truth.either (truth left) (truth right)
  | binary op left right =>
    if op.comparison?.isSome then
      engine.compared op (value engine columns row left) (value engine columns row right)
    else condition (engine.value (binary op left right) row)
  | inList e items negated =>
    Truth.signed negated (Truth.any (items.map fun item =>
      engine.compared .eq (value engine columns row e) (value engine columns row item)))
  | between e low high negated =>
    Truth.signed negated (Truth.both
      (engine.compared .ge (value engine columns row e) (value engine columns row low))
      (engine.compared .le (value engine columns row e) (value engine columns row high)))
  | e => condition (value engine columns row e)

end Expression
end RemoteTables
