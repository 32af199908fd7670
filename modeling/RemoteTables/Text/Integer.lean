/-!
# Decimal integers

How an integer is read from a setting or from the last part of a link: an optional sign, then at
least one decimal digit and nothing else, with no blanks allowed. The reader names the cause of a
refusal, because the settings report it word for word, and the cause is the one met first when
the text is read from the left: a number that has already grown too large is refused before a
wrong character behind it is seen. A minus sign belongs to the grammar only where negative numbers
do; for a natural number it is an ordinary wrong character.
-/

set_option autoImplicit false

namespace RemoteTables

/-- Why a text is not an integer of the wanted kind. -/
inductive IntegerFault where
  | empty
  | invalidDigit
  | tooLarge
  | tooSmall
  deriving DecidableEq, Repr

def IntegerFault.message : IntegerFault → String
  | .empty => "cannot parse integer from empty string"
  | .invalidDigit => "invalid digit found in string"
  | .tooLarge => "number too large to fit in target type"
  | .tooSmall => "number too small to fit in target type"

namespace Text

def digitValue (c : Char) : Nat := c.toNat - '0'.toNat

/-- The value of a list of decimal digits, most significant first. -/
def digitsValue (digits : List Char) : Nat :=
  digits.foldl (fun n c => n * 10 + digitValue c) 0

theorem digitsValue_eq (digits : List Char) : digitsValue digits = Nat.ofDigitChars 10 digits 0 := by
  rw [digitsValue, Nat.ofDigitChars_eq_foldl]
  congr
  funext n c
  rw [Nat.mul_comm, digitValue]

/-- Reads digits onto `value`; a value that reaches `bound` is refused as `overflow`. -/
def digitsBelow (bound : Nat) (overflow : IntegerFault) : Nat → List Char → Except IntegerFault Nat
  | value, [] => .ok value
  | value, c :: rest =>
    if c.isDigit then
      let value := value * 10 + digitValue c
      if value < bound then digitsBelow bound overflow value rest else .error overflow
    else .error .invalidDigit

/-- A natural number below `bound` in digits alone: at least one digit must stand there. -/
def digits? (bound : Nat) (overflow : IntegerFault) : List Char → Except IntegerFault Nat
  | [] => .error .invalidDigit
  | text => digitsBelow bound overflow 0 text

/-- A natural number below `bound`, with an optional plus sign. -/
def natural? (bound : Nat) : List Char → Except IntegerFault Nat
  | [] => .error .empty
  | '+' :: rest => digits? bound .tooLarge rest
  | text => digits? bound .tooLarge text

/-- The number that decimal digits with or without a sign spell, in 64 bits. -/
def signed64? : List Char → Except IntegerFault Int64
  | [] => .error .empty
  | '+' :: rest => (digits? (Nat.pow 2 63) .tooLarge rest).map fun n => Int64.ofInt n
  | '-' :: rest => (digits? (Nat.pow 2 63 + 1) .tooSmall rest).map fun n => Int64.ofInt (-(n : Int))
  | text => (digits? (Nat.pow 2 63) .tooLarge text).map fun n => Int64.ofInt n

end Text

end RemoteTables
