/-!
# Percent-encoding

In an address, a character that would be mistaken for a part of its grammar, or that is outside
printable ASCII, is written as the bytes of its UTF-8 form, each as a percent sign and two
hexadecimal digits. Which characters are mistaken depends on the place, so every place has its set
of characters that are left as they are. Form encoding, which the parameters of a query use, is the
same with a set of its own and a plus sign for the space.

Decoding goes back to bytes, from any text: a percent sign without two digits stands for itself.
-/

set_option autoImplicit false

namespace RemoteTables
namespace Percent

/-! ## Characters left as they are -/

/-- Whether a character is printable ASCII, the space included. -/
def isPrintable (c : Char) : Bool := ' ' ≤ c && c ≤ '~'

/-- What is left in an address that has no structure behind its scheme. -/
def plainInFlat (c : Char) : Bool := isPrintable c

/-- Whether a character stands for itself in a fragment. -/
def plainInFragment (c : Char) : Bool :=
  isPrintable c && !([' ', '"', '<', '>', Char.ofNat 0x60].contains c)

/-- What is left in a query, whose apostrophes are encoded under some schemes. -/
def plainInQuery (special : Bool) (c : Char) : Bool :=
  isPrintable c && !([' ', '"', '#', '<', '>'].contains c) && !(special && c == '\'')

/-- Whether a character stands for itself in a path. -/
def plainInPath (c : Char) : Bool := plainInFragment c && !(['#', '?', '\x7b', '\x7d'].contains c)

/-- What is left in a text that is to be one part of a path. -/
def plainInSegment (special : Bool) (c : Char) : Bool :=
  plainInPath c && !(['/', '%'].contains c) && !(special && c == '\\')

/-- Whether a character stands for itself in a name or a password. -/
def plainInUser (c : Char) : Bool :=
  plainInPath c && !(['/', ':', ';', '=', '@', '[', '\\', ']', '^', '|'].contains c)

/-- Whether a character stands for itself in a parameter. -/
def plainInForm (c : Char) : Bool := c.isAlphanum || ['*', '-', '.', '_'].contains c

/-! ## Encoding and decoding -/

/-- A byte as a percent sign and two digits. -/
def ofByte (b : UInt8) : List Char :=
  let digit (n : Nat) : Char := (Nat.digitChar n).toUpper
  ['%', digit (b.toNat / 16), digit (b.toNat % 16)]

/-- A character as the bytes of its UTF-8 form. -/
def ofChar (c : Char) : List Char := (String.utf8EncodeChar c).flatMap ofByte

/-- A text with every character encoded that does not stand for itself. -/
def encode (plain : Char → Bool) (text : List Char) : List Char :=
  text.flatMap fun c => if plain c then [c] else ofChar c

/-- A parameter, in which a blank becomes a plus sign. -/
def encodeForm (text : List Char) : List Char :=
  text.flatMap fun c => if plainInForm c then [c] else if c = ' ' then ['+'] else ofChar c

def digit? (c : Char) : Option Nat :=
  if c.isDigit then some (c.toNat - '0'.toNat)
  else if 'a' ≤ c ∧ c ≤ 'f' then some (c.toNat - 'a'.toNat + 10)
  else if 'A' ≤ c ∧ c ≤ 'F' then some (c.toNat - 'A'.toNat + 10)
  else none

/-- The bytes of an encoded text. A percent sign without two digits stands for itself. -/
def decode : List Char → List UInt8
  | '%' :: a :: b :: rest =>
    match digit? a, digit? b with
    | some high, some low => UInt8.ofNat (high * 16 + low) :: decode rest
    | _, _ => String.utf8EncodeChar '%' ++ decode (a :: b :: rest)
  | c :: rest => String.utf8EncodeChar c ++ decode rest
  | [] => []

/-- The bytes of a parameter, in which a plus sign was a blank. -/
def decodeForm (text : List Char) : List UInt8 :=
  decode (text.map fun c => if c = '+' then ' ' else c)

/-- The text that bytes are the UTF-8 form of. -/
def text? (bytes : List UInt8) : Option String := String.fromUTF8? ⟨bytes.toArray⟩

end Percent
end RemoteTables
