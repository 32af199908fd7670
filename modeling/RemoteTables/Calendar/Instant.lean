import RemoteTables.Calendar.Date
import RemoteTables.Text.Blank
import RemoteTables.Json.Decode

/-!
# Instants

Instants come as texts in answers and go as texts into requests, and are milliseconds since the
epoch in between.

What is written is strict: a date, `T`, a time in whole seconds and `Z`, with four digits for the
year, or a sign and at least four digits for a year outside 0 to 9999. What is read is lenient:
blanks may stand before each number, before each separator and before the offset, numbers may be
short, the year may carry a sign, `T` may be `t` or a blank, and the offset from UTC may be written
in several ways. A sixtieth second is the fifty-ninth with a thousand more milliseconds. Digits of
the fraction behind the ninth do not count, and what is left is rounded down to milliseconds.

Only instants whose date lies between `firstDate` and `lastDate`, in UTC, exist.
-/

set_option autoImplicit false

namespace RemoteTables
namespace Calendar

/-- The first date an instant can have. -/
def firstDate : Date := ⟨-262143, 1, 1⟩

/-- The last date an instant can have. -/
def lastDate : Date := ⟨262142, 12, 31⟩

/-- Whether a day has a date that the calendar supports. -/
def inCalendar (days : Int) : Bool := firstDate.toDays ≤ days && days ≤ lastDate.toDays

/-- The day of the epoch. -/
def epochDay : Int := daysBeforeYear 1970

def daySeconds : Int := 86400

/-! ## Writing -/

/-- A number in decimal, filled up with zeros from the left. -/
def padded (width : Nat) (n : Nat) : String :=
  let digits := (toString n).toList
  String.ofList (List.replicate (width - digits.length) '0' ++ digits)

/-- A year: four digits where they are enough, and a sign in front otherwise. -/
def renderYear (year : Int) : String :=
  if 0 ≤ year ∧ year ≤ 9999 then padded 4 year.toNat
  else (if year < 0 then "-" else "+") ++ padded 4 year.natAbs

/-- The text of an instant, its milliseconds left out; `none` when there is no such date. -/
def renderInstant? (millis : Int) : Option String :=
  let seconds := millis / 1000
  let days := seconds / daySeconds + epochDay
  let time := (seconds % daySeconds).toNat
  if inCalendar days then
    let date := Date.ofDays days
    some (renderYear date.year ++ "-" ++ padded 2 date.month ++ "-" ++ padded 2 date.day ++ "T"
      ++ padded 2 (time / 3600) ++ ":" ++ padded 2 (time / 60 % 60) ++ ":" ++ padded 2 (time % 60)
      ++ "Z")
  else none

/-! ## Reading -/

def digitsValue (digits : List Char) : Nat :=
  digits.foldl (fun n c => n * 10 + (c.toNat - '0'.toNat)) 0

/-- A number of at most so many digits, with what follows it. -/
def readNumber (width : Nat) (text : List Char) : Option (Nat × List Char) :=
  let digits := (text.take width).takeWhile Char.isDigit
  if digits.isEmpty then none else some (digitsValue digits, text.drop digits.length)

/-- A year, with any number of digits if it has a sign and up to four if it has none. -/
def readYear : List Char → Option (Int × List Char)
  | '-' :: rest => (readNumber rest.length rest).map fun (n, rest) => (-(n : Int), rest)
  | '+' :: rest => (readNumber rest.length rest).map fun (n, rest) => ((n : Int), rest)
  | text => (readNumber 4 text).map fun (n, rest) => ((n : Int), rest)

/-- A number of one or two digits between two bounds, blanks in front of it left out. -/
def readPart (low high : Nat) (text : List Char) : Option (Nat × List Char) :=
  match readNumber 2 (Text.trimStart text) with
  | some (n, rest) => if low ≤ n ∧ n ≤ high then some (n, rest) else none
  | none => none

/-- What follows a mark, which may have blanks before it. -/
def readMark (mark : Char) (text : List Char) : Option (List Char) :=
  match Text.trimStart text with
  | c :: rest => if c = mark then some rest else none
  | [] => none

/-- The nanoseconds of a fraction, if there is one. Digits behind the ninth are passed over. -/
def readFraction : List Char → Option (Nat × List Char)
  | '.' :: rest =>
    let digits := rest.takeWhile Char.isDigit
    let counted := digits.take 9
    if digits.isEmpty then none
    else some (digitsValue counted * Nat.pow 10 (9 - counted.length), rest.drop digits.length)
  | text => some (0, text)

/-- Whether a character may stand between the hours and the minutes of an offset. -/
def isOffsetMark (c : Char) : Bool := c = ':' || isBlank c

/-- The seconds of an offset behind its sign: two digits of hours, any marks, two of minutes. -/
def readOffsetSeconds : List Char → Option (Int × List Char)
  | h₁ :: h₂ :: rest =>
    match rest.dropWhile isOffsetMark with
    | m₁ :: m₂ :: rest =>
      if [h₁, h₂, m₁, m₂].all Char.isDigit ∧ digitsValue [m₁, m₂] < 60 then
        some ((digitsValue [h₁, h₂] : Int) * 3600 + (digitsValue [m₁, m₂] : Int) * 60, rest)
      else none
    | _ => none
  | _ => none

/-- The seconds that a clock is ahead of the common time, with what follows. -/
def readOffset : List Char → Option (Int × List Char)
  | 'Z' :: rest | 'z' :: rest => some (0, rest)
  | '+' :: rest => readOffsetSeconds rest
  | '-' :: rest | '−' :: rest => (readOffsetSeconds rest).map fun (s, rest) => (-s, rest)
  | u :: t :: c :: rest =>
    if [u, t, c].map Char.toUpper = ['U', 'T', 'C'] then some (0, rest) else none
  | _ => none

/-- A date, blanks in front of its parts left out. -/
def readDate (text : List Char) : Option (Date × List Char) := do
  let (year, text) ← readYear (Text.trimStart text)
  let text ← readMark '-' text
  let (month, text) ← readPart 1 12 text
  let text ← readMark '-' text
  let (day, text) ← readPart 1 31 text
  if Date.isValid ⟨year, month, day⟩ then some (⟨year, month, day⟩, text) else none

/-- A time of day: its seconds and the nanoseconds on top of them. -/
def readTime (text : List Char) : Option ((Nat × Nat) × List Char) := do
  let (hour, text) ← readPart 0 23 text
  let text ← readMark ':' text
  let (minute, text) ← readPart 0 59 text
  let text ← readMark ':' text
  let (second, text) ← readPart 0 60 text
  let (nanos, text) ← readFraction text
  let leap := if second = 60 then 1 else 0
  some ((hour * 3600 + minute * 60 + second - leap, nanos + leap * 1000000000), text)

/-- The instant a text stands for, in milliseconds since the epoch. -/
def readInstant? (text : String) : Option Int := do
  let (date, rest) ← readDate text.toList
  let rest ← match rest with
    | 'T' :: rest | 't' :: rest | ' ' :: rest => some rest
    | _ => none
  let ((seconds, nanos), rest) ← readTime rest
  let (offset, rest) ← readOffset (Text.trimStart rest)
  let days := date.toDays
  let utc := days * daySeconds + seconds - offset
  if Text.trimStart rest = [] ∧ offset.natAbs < daySeconds ∧ inCalendar days
      ∧ inCalendar (utc / daySeconds) then
    some ((utc - epochDay * daySeconds) * 1000 + nanos / 1000000)
  else none

/-- An instant on the wire is a text, and becomes milliseconds. -/
def instantDecoder : Decoder Int64 := fun room fragment => do
  let text ← Decoder.string room fragment
  match readInstant? text with
  | some millis => .ok (Int64.ofInt millis)
  | none => .error .malformed

end Calendar
end RemoteTables
