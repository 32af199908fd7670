import RemoteTables.Decimal.Binary64

/-!
# JSON values

The value that a handle, a split or a scan is written as. It is the writing side only: a value is
always complete, an object keeps its members in the order they were given, and a number is either
an integer or a binary floating-point number. What a reader makes of a text, which may break off
anywhere, is `Json.Fragment`.
-/

set_option autoImplicit false

namespace RemoteTables

/-- A complete JSON value. -/
inductive Json where
  | null
  | bool (value : Bool)
  | int (value : Int)
  | real (value : Binary64)
  | string (value : String)
  | array (items : List Json)
  | object (members : List (String × Json))
  deriving Inhabited

namespace Json

/-- The value of an object's member; the last one counts when a name is repeated. -/
def member? (name : String) : Json → Option Json
  | object members => (members.reverse.find? fun m => m.1 == name).map (·.2)
  | _ => none

/-- A value that may be missing, which is written as `null`. -/
def ofOption {α : Type} (encode : α → Json) : Option α → Json
  | none => null
  | some value => encode value

def strings (texts : List String) : Json := array (texts.map string)

end Json

end RemoteTables
