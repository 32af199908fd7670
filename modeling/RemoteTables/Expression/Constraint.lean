import RemoteTables.Expression.Basic
import RemoteTables.Constraint

/-!
# Expressions as constraints

An expression becomes a constraint only if the constraint says exactly the same: comparisons of a
column with a constant, lists and intervals of constants, conjunctions of such, and disjunctions
that stay with one column. Everything else gives `none` and is left to the engine.

A constant must mean the same literal in the column's type, without any loss. A whole number has to
fit, an instant must have no part below a millisecond, and the two smallest unsigned kinds are not
read at all. A null constant is no literal, since no comparison with it is ever true.
-/

set_option autoImplicit false

namespace RemoteTables

/-- A whole number, if it has room in 64 bits. -/
def int64? (i : Int) : Option Int64 :=
  if Int64.minValue.toInt ≤ i ∧ i ≤ Int64.maxValue.toInt then some (.ofInt i) else none

/-- Whether integers of a kind are read as literals. The two smallest unsigned kinds are not. -/
def IntegerKind.isRead : IntegerKind → Bool
  | uint16 | uint8 => false
  | _ => true

/-- The milliseconds of an instant, if they are whole and fit. -/
def TimeUnit.millis? (unit : TimeUnit) (ticks : Int64) : Option Int64 :=
  let parts (perMilli : Int) : Option Int64 :=
    if ticks.toInt % perMilli = 0 then int64? (ticks.toInt / perMilli) else none
  match unit with
  | second => int64? (ticks.toInt * 1000)
  | millisecond => some ticks
  | microsecond => parts 1000
  | nanosecond => parts 1000000

/-- The literal that a constant means for a column of a type. -/
def Scalar.literal? (type : ColumnType) (s : Scalar) : Option Literal :=
  match type, s with
  | .varchar, text (some s) => some (.varchar s)
  | .boolean, boolean (some b) => some (.boolean b)
  | .bigInt, integer kind (some i) => if kind.isRead then (int64? i).map .bigInt else none
  | .timestamp, instant unit (some ticks) => (unit.millis? ticks).map .timestamp
  | _, _ => none

namespace Operator

/-- The operator that says the same with its sides exchanged, if it is a comparison. -/
def exchanged? : Operator → Option Operator
  | eq => some eq
  | ne => some ne
  | lt => some gt
  | le => some ge
  | gt => some lt
  | ge => some le
  | _ => none

/-- The literals that compare with `v` as the operator says. -/
def domain? (op : Operator) (v : Literal) : Option Domain :=
  match op with
  | eq => some (.single v)
  | lt => some (.ranges [.lessThan v])
  | le => some (.ranges [.lessOrEqual v])
  | gt => some (.ranges [.greaterThan v])
  | ge => some (.ranges [.greaterOrEqual v])
  | _ => none

end Operator

namespace Expression

variable (columns : List ColumnRef)

/-- The column of a name. -/
def column? (name : String) : Option ColumnRef := columns.find? fun c => c.name == name

/-- The literal of an expression that is a constant of a type. -/
def literal? (type : ColumnType) (e : Expression) : Option Literal :=
  match e.unnamed with
  | literal s => s.literal? type
  | _ => none

/-- The constraint of a comparison of a named column with a constant. -/
def compared? (name : String) (op : Operator) (s : Scalar) : Option Constraint := do
  let column ← column? columns name
  let v ← s.literal? column.type
  return .single column (← op.domain? v)

/-- The constraint of a disjunction: both sides must restrict the same one column. -/
def eitherOf? (a b : Constraint) : Option Constraint :=
  match a.entries, b.entries with
  | [a], [b] =>
    if a.column = b.column then some (.single a.column (a.domain.union b.domain)) else none
  | _, _ => none

/-- The constraint that says what an expression says, if there is one. -/
def constraint? : Expression → Option Constraint
  | named e _ => constraint? e
  | binary .and left right => do return (← constraint? left).intersect (← constraint? right)
  | binary .or left right => do eitherOf? (← constraint? left) (← constraint? right)
  | binary op left right =>
    match left.unnamed, right.unnamed with
    | column _ name, literal s => compared? columns name op s
    | literal s, column _ name => do compared? columns name (← op.exchanged?) s
    | _, _ => none
  | inList e items false =>
    match e.unnamed with
    | column _ name => do
      let column ← column? columns name
      return .single column (.ofList (← items.mapM (literal? column.type)))
    | _ => none
  | between e low high false =>
    match e.unnamed with
    | column _ name => do
      let column ← column? columns name
      let low ← literal? column.type low
      let high ← literal? column.type high
      return .single column (.ranges [.between low high])
    | _ => none
  | _ => none

end Expression
end RemoteTables
