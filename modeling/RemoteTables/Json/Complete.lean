import RemoteTables.Json.Fragment

/-!
# Complete values from texts

A fragment that is complete, has characters in all its texts and no infinite number is a JSON value.
Integers of up to sixty-four bits stay integers; any other number becomes the nearest binary one.
-/

set_option autoImplicit false

namespace RemoteTables
namespace Json

/-- The binary64 number nearest to a decimal. -/
def nearestReal (negative : Bool) (digits : Nat) (exponent : Int) : Binary64 :=
  let magnitude :=
    if exponent < 0 then Float.ofScientific digits true exponent.natAbs
    else Float.ofScientific digits false exponent.toNat
  ⟨(if negative then -magnitude else magnitude).toBits⟩

/-- A whole number stays one if 64 bits are enough for it, signed or unsigned. -/
def ofNumber : Number → Json
  | .integer i =>
    if Int64.minValue.toInt ≤ i ∧ i < Int.ofNat UInt64.size then int i
    else real (nearestReal (i < 0) i.natAbs 0)
  | .decimal negative digits exponent => real (nearestReal negative digits exponent)

mutual
/-- The value that a fragment is, if nothing of it is missing. -/
def ofFragment? : Fragment → Option Json
  | .broken => none
  | .null => some null
  | .bool b => some (bool b)
  | .number n => some (ofNumber n)
  | .string text => text.map string
  | .array items closed => if closed then (ofItems? items).map array else none
  | .object members closed => if closed then (ofMembers? members).map object else none

def ofItems? : List Fragment → Option (List Json)
  | [] => some []
  | item :: rest =>
    match ofFragment? item, ofItems? rest with
    | some item, some rest => some (item :: rest)
    | _, _ => none

def ofMembers? : List (Option String × Fragment) → Option (List (String × Json))
  | [] => some []
  | (name, value) :: rest =>
    match name, ofFragment? value, ofMembers? rest with
    | some name, some value, some rest => some ((name, value) :: rest)
    | _, _, _ => none
end

/-- The value of a text that is one complete JSON value and nothing else. -/
def parse? (text : String) : Option Json :=
  let document := read text
  if document.ends then ofFragment? document.value else none

end Json
end RemoteTables
