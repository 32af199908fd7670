import RemoteTables.Literal

/-!
# Ranges of literals

A range is an interval of the order of literals, with an end that is missing, included or excluded
on either side. What a range means is `Range.includes`, which asks one question per side, and the
intersection is made the same way: the tighter of the two lower ends and the tighter of the two
upper ends. Ends at the same literal are equally tight unless one of them excludes it.

An intersection that admits nothing is `none`, as far as the ends show it. Two ends with nothing
between them, such as above 3 and below 4 among the integers, still make a range.
-/

set_option autoImplicit false

namespace RemoteTables

/-- One end of a range. -/
inductive Bound where
  | unbounded
  | inclusive (limit : Literal)
  | exclusive (limit : Literal)
  deriving DecidableEq, Inhabited

namespace Bound

/-- The literal of a bound. -/
def literal? : Bound → Option Literal
  | unbounded => none
  | inclusive l | exclusive l => some l

/-- Whether a literal lies above a lower bound. -/
def admitsAbove (low : Bound) (v : Literal) : Bool :=
  match low with
  | unbounded => true
  | inclusive l => l ≤ v
  | exclusive l => l < v

/-- Whether a literal lies below an upper bound. -/
def admitsBelow (high : Bound) (v : Literal) : Bool :=
  match high with
  | unbounded => true
  | inclusive h => v ≤ h
  | exclusive h => v < h

/-- The end of two at one literal that admits less. -/
def stricter (a b : Bound) : Bound :=
  match a with
  | exclusive _ => a
  | _ => b

/-- The tighter of two lower bounds: the greater one, or the stricter of two at one literal. -/
def tighterLow : Bound → Bound → Bound
  | unbounded, b => b
  | a, unbounded => a
  | a@(inclusive l), b@(inclusive m) | a@(inclusive l), b@(exclusive m)
  | a@(exclusive l), b@(inclusive m) | a@(exclusive l), b@(exclusive m) =>
    match compare l m with
    | .gt => a
    | .lt => b
    | .eq => stricter a b

/-- The tighter of two upper bounds: the lesser one, or the stricter of two at one literal. -/
def tighterHigh : Bound → Bound → Bound
  | unbounded, b => b
  | a, unbounded => a
  | a@(inclusive l), b@(inclusive m) | a@(inclusive l), b@(exclusive m)
  | a@(exclusive l), b@(inclusive m) | a@(exclusive l), b@(exclusive m) =>
    match compare l m with
    | .lt => a
    | .gt => b
    | .eq => stricter a b

/-- The names of the bounds on the wire. -/
def names : List String := ["unbounded", "inclusive", "exclusive"]

/-- A bound on the wire: a bare name, or its literal under the name. -/
def toJson : Bound → Json
  | unbounded => .string "unbounded"
  | inclusive l => .object [("inclusive", l.toJson)]
  | exclusive l => .object [("exclusive", l.toJson)]

def decoder : Decoder Bound :=
  Decoder.variant names
    (fun name => if name = "unbounded" then .ok unbounded else .error .malformed)
    fun name =>
      if name = "inclusive" then Literal.decoder.map inclusive
      else if name = "exclusive" then Literal.decoder.map exclusive
      else Decoder.unit.map fun _ => unbounded

end Bound

/-- A contiguous interval of literals. -/
structure Range where
  low : Bound
  high : Bound
  deriving DecidableEq, Inhabited

namespace Range

/-! ## Making ranges -/

/-- The range of one literal, a point. -/
def single (v : Literal) : Range := ⟨.inclusive v, .inclusive v⟩

def greaterThan (v : Literal) : Range := ⟨.exclusive v, .unbounded⟩

def greaterOrEqual (v : Literal) : Range := ⟨.inclusive v, .unbounded⟩

def lessThan (v : Literal) : Range := ⟨.unbounded, .exclusive v⟩

def lessOrEqual (v : Literal) : Range := ⟨.unbounded, .inclusive v⟩

def between (low high : Literal) : Range := ⟨.inclusive low, .inclusive high⟩

def everything : Range := ⟨.unbounded, .unbounded⟩

/-! ## Asking about ranges -/

/-- Whether a literal lies in a range. -/
def includes (r : Range) (v : Literal) : Bool :=
  r.low.admitsAbove v && r.high.admitsBelow v

/-- The literal of a point. -/
def singleValue? (r : Range) : Option Literal :=
  match r.low, r.high with
  | .inclusive a, .inclusive b => if a = b then some a else none
  | _, _ => none

/-- Whether the ends leave nothing between them. -/
def isEmpty (r : Range) : Bool :=
  match r.low, r.high with
  | .unbounded, _ | _, .unbounded => false
  | .inclusive l, .inclusive h => h < l
  | .inclusive l, .exclusive h | .exclusive l, .inclusive h | .exclusive l, .exclusive h => h ≤ l

/-- What two ranges have in common, unless they are disjoint. -/
def intersect? (r s : Range) : Option Range :=
  let common : Range := ⟨r.low.tighterLow s.low, r.high.tighterHigh s.high⟩
  if common.isEmpty then none else some common

/-! ## Wire form -/

def toJson (r : Range) : Json :=
  .object [("low", r.low.toJson), ("high", r.high.toJson)]

def decoder : Decoder Range :=
  Record.decoder (Range.mk <$> .required "low" Bound.decoder <*> .required "high" Bound.decoder)

end Range
end RemoteTables
