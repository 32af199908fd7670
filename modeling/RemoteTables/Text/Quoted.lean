import RemoteTables.Text.Unseen

/-!
# Quoted text, for messages

Where a message shows a text as a value (a cell that does not fit its column, the name of a schema
in a description of a connector), the text stands in double quotes. A quote and a backslash get a
backslash in front; tab, line feed, carriage return and the null character have short forms; and a
character nobody would see is written by its code point in hexadecimal. An apostrophe needs
nothing, because it does not end the text.
-/

set_option autoImplicit false

namespace RemoteTables
namespace Text

/-- A number in lower-case hexadecimal, without leading zeros. -/
def hexadecimal (n : Nat) : String := String.ofList (Nat.toDigits 16 n)

/-- A character as it is shown between quotes: what cannot be seen is shown by its number. -/
def quotedChar (c : Char) : String :=
  match c with
  | '"' => "\\\""
  | '\\' => "\\\\"
  | '\t' => "\\t"
  | '\n' => "\\n"
  | '\r' => "\\r"
  | '\x00' => "\\0"
  | _ => if isUnseen c then "\\u\x7b" ++ hexadecimal c.toNat ++ "\x7d" else String.singleton c

def quoted (text : String) : String :=
  "\"" ++ String.join (text.toList.map quotedChar) ++ "\""

def bracketed (items : List String) : String :=
  "[" ++ String.intercalate ", " items ++ "]"

/-- A record as messages show it: its name, and its fields with their names. -/
def record (name : String) (fields : List (String × String)) : String :=
  name ++ " \x7b " ++ String.intercalate ", " (fields.map fun (key, value) => key ++ ": " ++ value)
    ++ " \x7d"

end Text
end RemoteTables
