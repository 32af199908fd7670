import RemoteTables.Json.Value

/-!
# Writing JSON

The compact form: no gaps, members in their order, and as few escapes as the format allows. Only
the quote, the backslash and the controls below the blank are escaped, the controls by a letter
where there is one and by four lower-case hexadecimal digits otherwise. `renderChars` is the form
the reader is compared with; `render` is the same as a text.
-/

set_option autoImplicit false

namespace RemoteTables
namespace Json

def hexChar (n : Nat) : Char :=
  if n < 10 then Char.ofNat ('0'.toNat + n) else Char.ofNat ('a'.toNat + (n - 10))

/-- A character as it is written between quotes. -/
def escapeChar (c : Char) : List Char :=
  match c with
  | '"' => ['\\', '"']
  | '\\' => ['\\', '\\']
  | '\x08' => ['\\', 'b']
  | '\t' => ['\\', 't']
  | '\n' => ['\\', 'n']
  | '\x0c' => ['\\', 'f']
  | '\r' => ['\\', 'r']
  | _ =>
    if c.toNat < 0x20 then ['\\', 'u', '0', '0', hexChar (c.toNat / 16), hexChar (c.toNat % 16)]
    else [c]

def quoteChars (text : String) : List Char :=
  '"' :: (text.toList.flatMap escapeChar ++ ['"'])

/-- The layout of real numbers: an exponent below `10^-5` and from `10^16` on. There is no text for
what is not a number, so those become `null`. -/
def realFormat : RealFormat := ⟨-4, 16, "null", "null"⟩

/-- A binary64 number, if it is a finite one; JSON has no others. -/
def renderReal (x : Binary64) : String :=
  match x.classify with
  | .notANumber | .infinite => "null"
  | _ => realFormat.render x

mutual
/-- A value without any gaps, members in the order in which they are given. -/
def renderChars : Json → List Char
  | null => "null".toList
  | bool true => "true".toList
  | bool false => "false".toList
  | int i => (toString i).toList
  | real x => (renderReal x).toList
  | string s => quoteChars s
  | array items => '[' :: (renderItems items ++ [']'])
  | object members => '\x7b' :: (renderMembers members ++ ['\x7d'])

def renderItems : List Json → List Char
  | [] => []
  | item :: rest => renderChars item ++ renderMoreItems rest

/-- Further items, each with a comma in front. -/
def renderMoreItems : List Json → List Char
  | [] => []
  | item :: rest => ',' :: (renderChars item ++ renderMoreItems rest)

def renderMembers : List (String × Json) → List Char
  | [] => []
  | (name, value) :: rest => quoteChars name ++ ':' :: (renderChars value ++ renderMoreMembers rest)

/-- Further members, each with a comma in front. -/
def renderMoreMembers : List (String × Json) → List Char
  | [] => []
  | (name, value) :: rest =>
    ',' :: (quoteChars name ++ ':' :: (renderChars value ++ renderMoreMembers rest))
end

/-- A value as a text. -/
def render (value : Json) : String := String.ofList (renderChars value)

end Json
end RemoteTables
