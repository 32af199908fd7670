import RemoteTables.Json.Fragment

/-!
# Decoding fragments

A decoder turns a fragment into a value of the library or says why not. Three complaints carry a
message of their own (a field that is missing, a field given twice, a name that is none of the
variants); every other fault, be it of syntax or of type, is `malformed`.

The first argument of a decoder is the room for nesting: how many more containers may be opened. A
text that nests deeper is refused where a value is really decoded. What is passed over, such as a
field nobody knows, may nest as deep as it likes; it only has to be complete JSON. The room also
makes decoders of recursive types structurally recursive.
-/

set_option autoImplicit false

namespace RemoteTables

/-- Why a text does not decode. -/
inductive DecodeFault where
  | malformed
  | missingField (name : String)
  | duplicateField (name : String)
  | unknownVariant (given : String) (expected : List String)
  deriving DecidableEq, Repr

namespace DecodeFault

/-- A name between back quotes, as messages show it. -/
def ticked (name : String) : String := "`" ++ name ++ "`"

/-- The wording of a fault, for those that have one. -/
def message : DecodeFault → Option String
  | malformed => none
  | missingField name => some ("missing field " ++ ticked name)
  | duplicateField name => some ("duplicate field " ++ ticked name)
  | unknownVariant given expected =>
    let choice := match expected with
      | [] => "there are no variants"
      | [a] => "expected " ++ ticked a
      | [a, b] => "expected " ++ ticked a ++ " or " ++ ticked b
      | names => "expected one of " ++ String.intercalate ", " (names.map ticked)
    some ("unknown variant " ++ ticked given ++ ", " ++ choice)

end DecodeFault

/-- Reads a value of `α` from a fragment, with room for so many more open containers. -/
abbrev Decoder (α : Type) := Nat → Json.Fragment → Except DecodeFault α

namespace Decoder

open Json (Fragment Number)

/-- The containers a text may nest. -/
def fullRoom : Nat := 127

variable {α β : Type}

/-- Reads a value and makes another one of it. -/
def map (f : α → β) (decode : Decoder α) : Decoder β := fun room fragment =>
  (decode room fragment).map f

/-- A truth value. -/
def bool : Decoder Bool
  | _, .bool b => .ok b
  | _, _ => .error .malformed

/-- An integer between two bounds. Numbers with a fraction or an exponent are not integers, nor is
a negative zero. -/
def intBetween (low high : Int) : Decoder Int
  | _, .number (.integer i) => if low ≤ i ∧ i ≤ high then .ok i else .error .malformed
  | _, _ => .error .malformed

/-- A natural number below a bound. -/
def natBelow (bound : Nat) : Decoder Nat
  | _, .number (.integer (.ofNat n)) => if n < bound then .ok n else .error .malformed
  | _, _ => .error .malformed

def int64 : Decoder Int64 := map Int64.ofInt (intBetween Int64.minValue.toInt Int64.maxValue.toInt)

def uint64 : Decoder UInt64 := map UInt64.ofNat (natBelow UInt64.size)

def uint32 : Decoder UInt32 := map UInt32.ofNat (natBelow UInt32.size)

/-- A position in a list, which has 64 bits on the wire. -/
def position : Decoder Nat := natBelow UInt64.size

/-- A text all of whose characters are there. -/
def string : Decoder String
  | _, .string (some text) => .ok text
  | _, _ => .error .malformed

/-- `null`, where nothing is to be said. -/
def unit : Decoder Unit
  | _, .null => .ok ()
  | _, _ => .error .malformed

/-- A value or `null`. -/
def optional (decode : Decoder α) : Decoder (Option α)
  | _, .null => .ok none
  | room, fragment => (decode room fragment).map some

/-- A list of values. A value that does not decode is met before an end that does not come. -/
def list (decode : Decoder α) : Decoder (List α)
  | room + 1, .array items closed => do
    let values ← items.mapM (decode room)
    if closed then .ok values else .error .malformed
  | _, _ => .error .malformed

/-- The least number that a binary64 number cannot hold because it rounds to infinity: the middle
between the greatest finite one and the next power of two. -/
def binary64Border : Nat := Nat.pow 2 1024 - Nat.pow 2 970

/-- Whether a decimal can be held by a binary64 number without becoming infinite. Numbers far from
the border are told by the position of their leading digit. -/
def isFinite : Number → Bool
  | .integer i => i.natAbs < binary64Border
  | .decimal _ digits exponent =>
    let position : Int := (Nat.toDigits 10 digits).length + exponent
    if digits = 0 ∨ position < 300 then true
    else if 310 < position then false
    else digits * Nat.pow 10 exponent.toNat < binary64Border * Nat.pow 10 (-exponent).toNat

/-- Whether a fragment is a JSON value of any kind: complete, with texts that have characters,
finite numbers and no deeper nesting than there is room for. -/
def readable : Nat → Fragment → Bool
  | _, .broken => false
  | _, .null | _, .bool _ => true
  | _, .number n => isFinite n
  | _, .string text => text.isSome
  | 0, .array _ _ | 0, .object _ _ => false
  | room + 1, .array items closed => closed && items.all (readable room)
  | room + 1, .object members closed =>
    closed && members.all fun (name, value) => name.isSome && readable room value

/-- Any value at all, kept only as the fact that it is there. -/
def anything : Decoder Unit := fun room fragment =>
  if readable room fragment then .ok () else .error .malformed

/-- The variant of an enumeration: its name, and its content when it is written as an object of one
member. The content decoder is given the name. -/
def variant (names : List String) (plain : String → Except DecodeFault α)
    (content : String → Decoder α) : Decoder α
  | _, .string (some name) =>
    if names.contains name then plain name else .error (.unknownVariant name names)
  | room + 1, .object ((some name, value) :: rest) closed =>
    if names.contains name then do
      let result ← content name room value
      if rest.isEmpty && closed then .ok result else .error .malformed
    else .error (.unknownVariant name names)
  | _, _ => .error .malformed

/-- An enumeration whose variants carry nothing; the object form holds `null`. -/
def names (variants : List (String × α)) : Decoder α :=
  let find (name : String) : Except DecodeFault α :=
    match variants.lookup name with
    | some value => .ok value
    | none => .error .malformed
  variant (variants.map (·.1)) find fun name room value => do
    unit room value
    find name

/-- Decodes all that was read: the value first, then its end. -/
def document (decode : Decoder α) (read : Json.Document) : Except DecodeFault α := do
  let value ← decode fullRoom read.value
  if read.ends then .ok value else .error .malformed

/-- Reads a value from a text, with full room for nesting. -/
def text (decode : Decoder α) (source : String) : Except DecodeFault α :=
  decode.document (Json.read source)

/-- Reads a value from bytes, which are taken for a text in UTF-8. -/
def bytes (decode : Decoder α) (source : List UInt8) : Except DecodeFault α :=
  decode.document (Json.readBytes source)

/-- Reads a value from one that is already JSON. -/
def value (decode : Decoder α) (source : Json) : Except DecodeFault α :=
  decode fullRoom (.ofJson source)

end Decoder
end RemoteTables
