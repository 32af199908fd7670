import RemoteTables.Text.Blank
import RemoteTables.Url.Percent

/-!
# Domain names

The name of a host, in the form in which it is looked up: labels of small ASCII characters with
points between them. What is written may have percent signs and capitals, and characters of any
script, for which labels have a form in ASCII, with a mark in front.

Which form that is, and of which labels a marked one is the form, is a matter of large tables, which
are not part of this library. So it is a parameter (`Forms`). It is asked about these names only; a
name of plain ASCII is its own form, but for its capitals. Whatever comes of a name must not have
characters that a host cannot have.
-/

set_option autoImplicit false

namespace RemoteTables
namespace DomainName

/-- The form of a name in ASCII; `none` if it is no name. -/
abbrev Forms := List Char → Option (List Char)

/-- The mark in front of a label in ASCII form. -/
def mark : List Char := ['x', 'n', '-', '-']

/-- Whether a name is more than plain ASCII, or is written as the form of such a name. -/
def isInternational (name : List Char) : Bool :=
  name.any (fun c => 128 ≤ c.toNat) ||
    (Text.splitOn '.' name).any fun label => mark.isPrefixOf (label.map Char.toLower)

/-- Whether a character cannot stand in a name: controls, blanks and the signs of address grammar. -/
def isForbidden (c : Char) : Bool :=
  c ≤ ' ' || c = '\x7f' ||
    ['#', '%', '/', ':', '<', '>', '?', '@', '[', '\\', ']', '^', '|'].contains c

/-- The form of a written name in which it is looked up; `none` if it is no name. -/
def read? (forms : Forms) (text : List Char) : Option (List Char) := do
  let decoded := (← Percent.text? (Percent.decode text)).toList
  let name ← if isInternational decoded then forms decoded else some (decoded.map Char.toLower)
  if name.any isForbidden then none else return name

end DomainName
end RemoteTables
