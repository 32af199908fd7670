import RemoteTables.Value

/-!
# Expressions

What a query engine hands over to be pushed into a table: conditions over columns, as it writes them
itself. Only few shapes can be turned into a constraint (`Expression.constraint?`, in its own
module); the rest is here because any expression may be handed over, and because the columns that it
mentions decide whether a condition that was taken has to be looked at again.

A name given to a part of an expression changes nothing about its value, so it is looked through
(`Expression.unnamed`).
-/

set_option autoImplicit false

namespace RemoteTables

/-- The engine's types of whole numbers. -/
inductive IntegerKind where
  | int64 | int32 | int16 | int8 | uint64 | uint32 | uint16 | uint8
  deriving DecidableEq, Inhabited

/-- The unit that the engine counts an instant in, from the epoch. -/
inductive TimeUnit where
  | second | millisecond | microsecond | nanosecond
  deriving DecidableEq, Inhabited

/-- A constant of the engine, which may be null in any type. -/
inductive Scalar where
  | null
  | text (value : Option String)
  | boolean (value : Option Bool)
  | integer (kind : IntegerKind) (value : Option Int)
  | double (value : Option Binary64)
  /-- Days since the epoch. -/
  | date (days : Option Int)
  | instant (unit : TimeUnit) (ticks : Option Int64)
  deriving DecidableEq, Inhabited

/-- An operator between two expressions. -/
inductive Operator where
  | eq | ne | lt | le | gt | ge
  | and | or
  | plus | minus | times
  | distinctFrom | notDistinctFrom
  /-- Whether a text matches a pattern. -/
  | regexMatch
  | concat
  deriving DecidableEq, Inhabited

/-- A scalar expression over the columns of a table. -/
inductive Expression where
  | column (relation : Option String) (name : String)
  | literal (value : Scalar)
  | binary (op : Operator) (left right : Expression)
  | inList (e : Expression) (items : List Expression) (negated : Bool)
  | between (e low high : Expression) (negated : Bool)
  | named (e : Expression) (name : String)
  | not (e : Expression)
  | isNull (e : Expression)
  | like (e pattern : Expression)
  | cast (e : Expression)
  deriving Inhabited

namespace Expression

/-- An expression without the names that were given to it. -/
def unnamed : Expression → Expression
  | named e _ => e.unnamed
  | e => e

mutual
/-- Every mention of a column: the relation it is qualified with, and its name. -/
def mentions : Expression → List (Option String × String)
  | column relation name => [(relation, name)]
  | literal _ => []
  | binary _ left right => left.mentions ++ right.mentions
  | inList e items _ => e.mentions ++ mentionsOfAll items
  | between e low high _ => e.mentions ++ low.mentions ++ high.mentions
  | named e _ => e.mentions
  | not e => e.mentions
  | isNull e => e.mentions
  | like e pattern => e.mentions ++ pattern.mentions
  | cast e => e.mentions

def mentionsOfAll : List Expression → List (Option String × String)
  | [] => []
  | e :: rest => e.mentions ++ mentionsOfAll rest
end

/-- The names of the columns that an expression refers to. A column that is mentioned under two
relations is two columns, so its name comes twice. -/
def referencedColumns (e : Expression) : List String :=
  (e.mentions.eraseDups.map (·.2)).mergeSort fun a b => decide (a ≤ b)

end Expression
end RemoteTables
