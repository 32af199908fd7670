import RemoteTables.Handle
import RemoteTables.Failure

/-!
# Pushdown

A table says of each column how far it can narrow a listing itself (`FilterRules`). A column it can
hold equal to a value it enforces completely, be it by the path of the request, by a parameter or by
looking at the rows; a column it can only bound stays with the engine, which looks again.

Three things are done with the rules.

* A request is built from the one value that a column is bound to (`boundValue?`).
* A constraint is divided into what the table takes and what the engine still has to check
  (`push`). The table takes an equality only if the domain is written as points. If the handle
  already says all that would be taken, nothing is pushed and the engine keeps the whole
  constraint, which is why the test for "no change" compares constraints as they are written.
* A handle whose equality columns have several points each becomes one handle for every choice of
  points (`explode`), since a request can carry one value per column.
-/

set_option autoImplicit false

namespace RemoteTables

/-- How far a table narrows a column itself. -/
inductive FilterKind where
  /-- Completely, by one value at a time. -/
  | equal
  /-- As a bound that the engine checks again. -/
  | range
  | unsupported
  deriving DecidableEq, Inhabited

/-- The columns a table can narrow; the first rule for a column counts. -/
abbrev FilterRules := List (String × FilterKind)

/-- What a table takes of a constraint, and what the engine still has to check. -/
structure Pushed where
  handle : TableHandle
  remaining : Constraint
  deriving DecidableEq

/-- Whether something of a column is handed back. -/
def Pushed.leaves (p : Pushed) (column : String) : Bool := (p.remaining.domain? column).isSome

namespace FilterRules

/-- What a table does with a constraint on a column. What no rule names is not supported. -/
def kindOf (rules : FilterRules) (column : String) : FilterKind :=
  (rules.lookup column).getD .unsupported

/-! ## The values that requests are built from -/

/-- The one value that a constraint binds a supported column to. -/
def boundValue? (rules : FilterRules) (c : Constraint) (column : String) : Option Literal :=
  if rules.kindOf column = .unsupported then none
  else (c.domain? column).bind Domain.singleValue?

/-- The text that a column is bound to. -/
def boundString? (rules : FilterRules) (c : Constraint) (column : String) : Option String :=
  (rules.boundValue? c column).bind Literal.asString?

/-- The number that a column is bound to. -/
def boundInt? (rules : FilterRules) (c : Constraint) (column : String) : Option Int64 :=
  (rules.boundValue? c column).bind Literal.asInt64?

/-- A value that a request cannot do without. -/
def requireBound {α : Type} (column : String) : Option α → Except Failure α
  | some value => .ok value
  | none => .error (.missingConstraint column)

def requireString (rules : FilterRules) (c : Constraint) (column : String) :
    Except Failure String :=
  requireBound column (rules.boundString? c column)

def requireInt (rules : FilterRules) (c : Constraint) (column : String) : Except Failure Int64 :=
  requireBound column (rules.boundInt? c column)

/-! ## Dividing a constraint -/

/-- How the table takes an entry, if it does: the column must be one of its own, in name and type,
and an equality must be written as points. -/
def takes? (rules : FilterRules) (columns : List ColumnRef) (entry : ColumnDomain) :
    Option FilterKind :=
  if columns.contains entry.column then
    match rules.kindOf entry.column.name with
    | .equal => if entry.domain.discreteValues?.isSome then some .equal else none
    | .range => some .range
    | .unsupported => none
  else none

/-- The entries of a constraint that a table takes. -/
def taken (rules : FilterRules) (columns : List ColumnRef) (c : Constraint) : Constraint :=
  c.filter fun entry => (rules.takes? columns entry).isSome

/-- The entries that the engine still has to check: all but the enforced ones. -/
def left (rules : FilterRules) (columns : List ColumnRef) (c : Constraint) : Constraint :=
  c.filter fun entry => rules.takes? columns entry != some .equal

/-- Gives the table its part of a constraint, if that changes the handle. -/
def push (rules : FilterRules) (columns : List ColumnRef) (h : TableHandle) (c : Constraint) :
    Option Pushed :=
  if c.isAll then none
  else
    let merged := h.constraint.intersect (rules.taken columns c)
    if merged = h.constraint then none
    else some ⟨h.withConstraint merged, rules.left columns c⟩

/-! ## One handle for every choice of points -/

/-- The points of an entry that one request cannot cover. -/
def choices? (rules : FilterRules) (entry : ColumnDomain) : Option (ColumnRef × List Literal) :=
  if rules.kindOf entry.column.name = .equal then
    match entry.domain.discreteValues? with
    | some points => if 1 < points.length then some (entry.column, points) else none
    | none => none
  else none

/-- Every constraint with a column fixed to every one of its points. -/
def fixColumn (constraints : List Constraint) (choice : ColumnRef × List Literal) :
    List Constraint :=
  constraints.flatMap fun c => choice.2.map fun point => c.withDomain choice.1 (.single point)

/-- The handles that together read what a handle reads, each with one value per equality column. A
constraint that nothing can satisfy gives none. -/
def explode (rules : FilterRules) (h : TableHandle) : List TableHandle :=
  if h.constraint.isNone then []
  else
    ((h.constraint.entries.filterMap rules.choices?).foldl fixColumn [h.constraint]).map
      h.withConstraint

end FilterRules
end RemoteTables
