/-!
# Dates

The proleptic Gregorian calendar, with a year zero and negative years, and the count of days that
instants are computed with. Days are counted from the first of January of year zero, so the number
of days before a year is one formula for all years.

Going back from a day to its date, the year is first guessed from the mean length of a year and
then corrected by comparison with that formula; the guess is never off by more than one. The month
is found by taking off month lengths one after the other.
-/

set_option autoImplicit false

namespace RemoteTables
namespace Calendar

/-- A date. -/
structure Date where
  year : Int
  month : Nat
  day : Nat
  deriving DecidableEq, Repr

/-- Every fourth year is a leap year, but of full centuries only every fourth. -/
def isLeap (year : Int) : Bool := year % 4 = 0 && (year % 100 ≠ 0 || year % 400 = 0)

def monthLengths (year : Int) : List Nat :=
  [31, if isLeap year then 29 else 28, 31, 30, 31, 30, 31, 31, 30, 31, 30, 31]

/-- The days from the start of year zero to the start of a year: 365 for each year, and one more for
each leap year among them. -/
def daysBeforeYear (year : Int) : Int :=
  365 * year + (year + 3) / 4 - (year + 99) / 100 + (year + 399) / 400

/-- The year of a day: a guess from the mean length of a year is wrong by one at most. -/
def yearOfDay (days : Int) : Int :=
  let guess := 400 * days / 146097
  if days < daysBeforeYear guess then guess - 1
  else if daysBeforeYear (guess + 1) ≤ days then guess + 1
  else guess

/-- The month, counted from `month`, and the day of the month of a day of the year that is counted
from zero, given the lengths of the months to come. -/
def monthOfDay (month : Nat) : List Nat → Nat → Nat × Nat
  | [], day => (month, day + 1)
  | length :: rest, day =>
    if day < length then (month, day + 1) else monthOfDay (month + 1) rest (day - length)

namespace Date

/-- Whether a date is in the calendar. -/
def isValid (d : Date) : Bool :=
  1 ≤ d.month && 1 ≤ d.day &&
    match (monthLengths d.year)[d.month - 1]? with
    | some length => d.day ≤ length
    | none => false

/-- The days from the first of January 1970, which is day zero. -/
def toDays (d : Date) : Int :=
  let monthsBefore := (monthLengths d.year).take (d.month - 1)
  daysBeforeYear d.year + Int.ofNat (monthsBefore.foldr Nat.add 0 + (d.day - 1))

/-- The date of a day, counted from the first of January 1970. -/
def ofDays (days : Int) : Date :=
  let year := yearOfDay days
  let (month, day) := monthOfDay 1 (monthLengths year) (days - daysBeforeYear year).toNat
  ⟨year, month, day⟩

end Date
end Calendar
end RemoteTables
