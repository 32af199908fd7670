/-!
# Binary floating-point numbers, and the shortest decimal that reads back

A column of doubles is carried through unchanged: nothing is ever added to or compared with a
double, so a `Binary64` is its sixty-four bits and equality is equality of bits. The only thing
computed from one is its text, and every text is made from the same two numbers, the digits and
the exponent of the shortest decimal that reads back.

Those digits are found without floating-point arithmetic. A finite number is `m · 2^q`; the reals
that round to it form an interval whose ends lie halfway to its neighbours and belong to it exactly
when `m` is even. For 1, 2, … 17 digits the two points of that decimal grid next to the number are
tested: the first grid with a hit wins, and of two hits the nearer one.
-/

set_option autoImplicit false

namespace RemoteTables

/-- A binary64 number, by its bits. -/
structure Binary64 where
  bits : UInt64
  deriving DecidableEq, Repr, Inhabited

namespace Binary64

/-- The sign bit. -/
def negative (x : Binary64) : Bool := x.bits >>> 63 == 1

/-- The eleven bits of the exponent, as they are stored. -/
def biasedExponent (x : Binary64) : Nat := ((x.bits >>> 52) &&& 0x7FF).toNat

/-- The fifty-two bits behind the leading one. -/
def fraction (x : Binary64) : Nat := (x.bits &&& 0xFFFFFFFFFFFFF).toNat

/-- A decimal `digits · 10^exponent`. -/
structure Decimal where
  digits : Nat
  exponent : Int
  deriving DecidableEq, Repr

/-- What a binary64 number is. -/
inductive Class where
  | notANumber
  | infinite
  | zero
  /-- `significand · 2^exponent`; `edge` when the gap below the number is half the gap above. -/
  | finite (significand : Nat) (exponent : Int) (edge : Bool)
  deriving DecidableEq, Repr

/-- What the bits stand for. The exponent of all ones is for what is no finite number, that of all
zeros for zero and the numbers without a leading one. -/
def classify (x : Binary64) : Class :=
  if x.biasedExponent = 0x7FF then
    if x.fraction = 0 then .infinite else .notANumber
  else if x.biasedExponent = 0 then
    if x.fraction = 0 then .zero else .finite x.fraction (-1074) false
  else
    .finite (Nat.pow 2 52 + x.fraction) (x.biasedExponent - 1075)
      (x.fraction = 0 && 1 < x.biasedExponent)

/-- `4 · significand · 2^exponent / (4 · 10^grid)` as a fraction of naturals, by its scales: the
number, and a quarter of its unit, are `4 · significand` and `1` over the denominator. -/
def gridScale (exponent grid : Int) : Nat × Nat :=
  (Nat.pow 2 exponent.toNat * Nat.pow 10 (-grid).toNat,
    4 * Nat.pow 2 (-exponent).toNat * Nat.pow 10 grid.toNat)

/-- The nearest point of the grid `10^grid` that rounds to the number, when there is one. -/
def onGrid (significand : Nat) (exponent : Int) (edge : Bool) (grid : Int) : Option Nat :=
  let (scale, unit) := gridScale exponent grid
  let value := 4 * significand * scale
  let low := (4 * significand - (if edge then 1 else 2)) * scale
  let high := (4 * significand + 2) * scale
  let inside (point : Nat) : Bool :=
    if significand % 2 = 0 then low ≤ point * unit && point * unit ≤ high
    else low < point * unit && point * unit < high
  let below := value / unit
  let above := below + 1
  let belowIn := below ≠ 0 && inside below
  let aboveIn := inside above
  if belowIn && (!aboveIn || value - below * unit ≤ above * unit - value) then some below
  else if aboveIn then some above
  else none

/-- The position of the leading decimal digit of `significand · 2^exponent`: the greatest `e` with
`10^e` not above it. Every binary64 number lies between `10^-324` and `10^309`. -/
def leadingPosition (significand : Nat) (exponent : Int) : Int :=
  let reaches (e : Int) : Bool :=
    let (scale, unit) := gridScale exponent e
    unit ≤ 4 * significand * scale
  match (List.range 640).find? fun (i : Nat) => reaches (309 - (i : Int)) with
  | some i => 309 - i
  | none => -331

/-- Drops final zeros of the digits, raising the exponent. -/
def Decimal.strip : Nat → Decimal → Decimal
  | 0, d => d
  | fuel + 1, d =>
    if d.digits ≠ 0 ∧ d.digits % 10 = 0 then strip fuel ⟨d.digits / 10, d.exponent + 1⟩ else d

/-- The shortest decimal that reads back as `significand · 2^exponent`. -/
def shortest (significand : Nat) (exponent : Int) (edge : Bool) : Decimal :=
  let lead := leadingPosition significand exponent
  let hit := (List.range 17).findSome? fun (i : Nat) =>
    (onGrid significand exponent edge (lead - i)).map fun digits => Decimal.mk digits (lead - i)
  (hit.getD ⟨0, 0⟩).strip 20

end Binary64

/-- How a shortest decimal is laid out: which numbers are written without an exponent. The position
of a number is that of its decimal point, counted from the left end of its digits. -/
structure RealFormat where
  /-- The smallest position of a number written without an exponent. -/
  minPosition : Int
  /-- The largest position of a number written without an exponent. -/
  maxPosition : Int
  notANumber : String
  infinity : String

namespace RealFormat

/-- The digits with the point set. A whole number keeps one zero behind the point; an exponent
stands alone behind `e`, and only a digit list longer than one has a point in front of it. -/
def layout (format : RealFormat) (d : Binary64.Decimal) : String :=
  let digits := (toString d.digits).toList
  let position : Int := digits.length + d.exponent
  if format.minPosition ≤ position ∧ position ≤ format.maxPosition then
    if position ≤ 0 then
      String.ofList ("0.".toList ++ List.replicate (-position).toNat '0' ++ digits)
    else if 0 ≤ d.exponent then
      String.ofList (digits ++ List.replicate d.exponent.toNat '0' ++ ".0".toList)
    else
      String.ofList (digits.take position.toNat ++ '.' :: digits.drop position.toNat)
  else
    let mantissa := match digits with
      | [] => []
      | [d] => [d]
      | d :: rest => d :: '.' :: rest
    String.ofList mantissa ++ "e" ++ toString (position - 1)

/-- A number written out: its sign, and the shortest digits that tell it from its neighbours. -/
def render (format : RealFormat) (x : Binary64) : String :=
  let sign := if x.negative then "-" else ""
  match x.classify with
  | .notANumber => format.notANumber
  | .infinite => sign ++ format.infinity
  | .zero => sign ++ "0.0"
  | .finite m q edge => sign ++ format.layout (Binary64.shortest m q edge)

end RealFormat

end RemoteTables
