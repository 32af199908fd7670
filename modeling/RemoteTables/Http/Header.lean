/-!
# Headers

What goes along with every request, whatever it asks for. A header's value is one line of text: a
control character in it would end the line or worse, so a value with one is refused before anything
is sent. The tab is the one control character that a line may hold.
-/

set_option autoImplicit false

namespace RemoteTables

/-- A header: its name and its value. -/
structure Header where
  name : String
  value : String
  deriving DecidableEq

namespace Header

/-- Whether a character may stand in a value. -/
def allows (c : Char) : Bool := c == '\t' || (' ' ≤ c && c != '\x7f')

/-- A header, unless its value has a character that it may not have. -/
def of? (name value : String) : Option Header :=
  if value.toList.all allows then some ⟨name, value⟩ else none

end Header
end RemoteTables
