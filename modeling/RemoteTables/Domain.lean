import RemoteTables.Range

/-!
# Domains

A domain is the set of literals a column may take: all of them, a finite list, or a union of
ranges. It is a set by its meaning, `Domain.includes`, and the operations below are judged by that
meaning alone; how a set is written may differ between two equal ones.

A finite list is kept strictly increasing by everything that makes one here, and membership relies
on it: the list is searched by halving. A list that comes from the wire is taken as it is, so the
order is a property (`Domain.WellFormed`) and not part of the type.
-/

set_option autoImplicit false

namespace RemoteTables

/-- The set of literals a column may take. -/
inductive Domain where
  /-- No restriction. -/
  | all
  /-- The listed literals; none at all if the list is empty. -/
  | values (values : List Literal)
  /-- The literals of any of the ranges. -/
  | ranges (ranges : List Range)
  deriving DecidableEq, Inhabited

namespace Domain

/-! ## Making domains -/

/-- The domain of one literal. -/
def single (v : Literal) : Domain := .values [v]

/-- The domain of some literals, put in order and each kept once. -/
def ofList (literals : List Literal) : Domain := .values (Literal.sortedSet literals)

/-! ## Asking about domains -/

/-- A domain whose list of values, if it has one, is strictly increasing. -/
def WellFormed : Domain → Prop
  | values vs => Literal.StrictlyIncreasing vs
  | _ => True

instance : (d : Domain) → Decidable d.WellFormed
  | all => .isTrue trivial
  | values vs => inferInstanceAs (Decidable (Literal.StrictlyIncreasing vs))
  | ranges _ => .isTrue trivial

/-- Whether the domain is written as no restriction. -/
def isAll : Domain → Bool
  | all => true
  | _ => false

/-- Whether the domain is written as an empty list, of values or of ranges. -/
def isNone : Domain → Bool
  | all => false
  | values vs => vs.isEmpty
  | ranges rs => rs.isEmpty

/-- Whether a domain has a literal. Values are searched by halving, so they have to be in order. -/
def includes (d : Domain) (v : Literal) : Bool :=
  match d with
  | all => true
  | values vs => v.searchedIn vs
  | ranges rs => rs.any (·.includes v)

/-- The only literal of a domain that is written as one value or one point. -/
def singleValue? : Domain → Option Literal
  | values [v] => some v
  | ranges [r] => r.singleValue?
  | _ => none

/-- The literals of a domain that is written as points only. -/
def discreteValues? : Domain → Option (List Literal)
  | all => none
  | values vs => some vs
  | ranges rs => (rs.mapM Range.singleValue?).map Literal.sortedSet

/-- The least of some literals. -/
def least? : List Literal → Option Literal
  | [] => none
  | v :: rest =>
    match least? rest with
    | none => some v
    | some w => if w < v then some w else some v

/-- A literal below which the domain has nothing: the first value, or the least of the lower ends
when every range has one. -/
def lowerBound? : Domain → Option Literal
  | all => none
  | values vs => vs.head?
  | ranges rs => (rs.mapM fun (r : Range) => r.low.literal?).bind least?

/-! ## Union and intersection -/

/-- A domain as ranges; a value becomes a point. -/
def toRanges : Domain → List Range
  | all => [.everything]
  | values vs => vs.map .single
  | ranges rs => rs

/-- What is in either domain. Two lists of values make one. Any other pair, unless one of them is
everything, is written as ranges: those of the first and then those of the second, not merged. -/
def union : Domain → Domain → Domain
  | all, _ | _, all => all
  | values a, values b => ofList (a ++ b)
  | a, b => ranges (a.toRanges ++ b.toRanges)

/-- The literals of both domains. Of two lists the first one's order is kept; ranges are cut with
ranges pair by pair. -/
def intersect : Domain → Domain → Domain
  | all, d => d
  | d, all => d
  | values a, values b => values (a.filter b.contains)
  | values vs, ranges rs | ranges rs, values vs => values (vs.filter (ranges rs).includes)
  | ranges a, ranges b => ranges (a.flatMap fun r => b.filterMap r.intersect?)

/-! ## Wire form -/

/-- A domain on the wire: a bare name, or its values or ranges under their name. -/
def toJson : Domain → Json
  | all => .string "all"
  | values vs => .object [("values", .array (vs.map Literal.toJson))]
  | ranges rs => .object [("ranges", .array (rs.map Range.toJson))]

/-- Values and ranges are read in the order in which they are given. -/
def decoder : Decoder Domain :=
  Decoder.variant ["all", "values", "ranges"]
    (fun name => if name = "all" then .ok all else .error .malformed)
    fun name =>
      if name = "values" then (Decoder.list Literal.decoder).map values
      else if name = "ranges" then (Decoder.list Range.decoder).map ranges
      else Decoder.unit.map fun _ => all

end Domain
end RemoteTables
