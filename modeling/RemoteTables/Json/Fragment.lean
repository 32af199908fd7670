import RemoteTables.Json.Value
import RemoteTables.Text.Utf8

/-!
# What a reader recognises of a JSON text

A text from outside may be wrong anywhere, and which complaint is made depends on how far the text
was good: a record whose second `id` stands before a missing bracket is refused for the second
`id`. So the reader never refuses. It makes a `Fragment`, a JSON value that may break off: a
container says whether its closing bracket was reached, and the point where the text goes wrong is
`broken`. Decoders walk a fragment in the order of the text and complain where they first have to.

Because reading stops at the first wrong character, only the last part of an unclosed container
can be broken, so a closed container is sound all the way down (`Fragment.intact` looks no deeper).

Reading has two steps. `tokens` runs over the characters once, with a mode that says what the
character belongs to; `Assembly` runs over the tokens once, with the containers that are still
open. Both are folds, so any depth of nesting is read in bounded stack.
-/

set_option autoImplicit false

namespace RemoteTables
namespace Json

/-- A JSON number: an integer, or a decimal `digits · 10^exponent` when the text has a fraction,
an exponent or a negative zero. -/
inductive Number where
  | integer (value : Int)
  | decimal (negative : Bool) (digits : Nat) (exponent : Int)
  deriving DecidableEq, Repr

/-- A JSON value as far as the text gives one. A text with an unpaired surrogate escape, or with a
byte that belongs to no character, is `none`: it may be passed over, but has no characters to be
read as. -/
inductive Fragment where
  | broken
  | null
  | bool (value : Bool)
  | number (value : Number)
  | string (text : Option String)
  | array (items : List Fragment) (closed : Bool)
  | object (members : List (Option String × Fragment)) (closed : Bool)
  deriving Inhabited

/-- Whether a fragment has its own end. What is inside is not looked at. -/
def Fragment.intact : Fragment → Bool
  | .broken => false
  | .array _ closed => closed
  | .object _ closed => closed
  | _ => true

/-! ## Tokens -/

/-- The lexical parts of a JSON text. -/
inductive Token where
  | openBrace
  | closeBrace
  | openBracket
  | closeBracket
  | comma
  | colon
  | null
  | bool (value : Bool)
  | number (value : Number)
  | string (text : Option String)
  | bad
  deriving DecidableEq, Repr

/-- The characters that a JSON text may have between its tokens. -/
def isGap (c : Char) : Bool := c = ' ' || c = '\t' || c = '\n' || c = '\r'

def hexDigit? (c : Char) : Option Nat :=
  if c.isDigit then some (c.toNat - '0'.toNat)
  else if 'a' ≤ c ∧ c ≤ 'f' then some (c.toNat - 'a'.toNat + 10)
  else if 'A' ≤ c ∧ c ≤ 'F' then some (c.toNat - 'A'.toNat + 10)
  else none

/-- The number of four hexadecimal digits. -/
def hexQuad? (a b c d : Char) : Option Nat := do
  return (((← hexDigit? a) * 16 + (← hexDigit? b)) * 16 + (← hexDigit? c)) * 16 + (← hexDigit? d)

/-- What a letter stands for behind a backslash. -/
def shortEscape? : Char → Option Char
  | '"' => some '"'
  | '\\' => some '\\'
  | '/' => some '/'
  | 'b' => some '\x08'
  | 'f' => some '\x0c'
  | 'n' => some '\n'
  | 'r' => some '\r'
  | 't' => some '\t'
  | _ => none

/-- One element of a quoted text: a character, or the code unit of a numeric escape. -/
inductive Piece where
  | char (c : Char)
  | unit (code : Nat)
  deriving DecidableEq, Repr

/-- What stands between the quotes of a text, escape by escape; `none` when one is malformed. -/
def pieces? : List Char → Option (List Piece)
  | [] => some []
  | '\\' :: 'u' :: a :: b :: c :: d :: rest =>
    match hexQuad? a b c d, pieces? rest with
    | some code, some pieces => some (.unit code :: pieces)
    | _, _ => none
  | '\\' :: c :: rest =>
    match shortEscape? c, pieces? rest with
    | some c, some pieces => some (.char c :: pieces)
    | _, _ => none
  | ['\\'] => none
  | c :: rest =>
    match pieces? rest with
    | some pieces => some (.char c :: pieces)
    | none => none

/-- The characters of the pieces: a leading surrogate and the trailing one right behind it are one
character, and `none` when a surrogate stands alone. -/
def characters? : List Piece → Option (List Char)
  | [] => some []
  | .char c :: rest => (characters? rest).map (c :: ·)
  | .unit high :: .unit low :: rest =>
    if 0xD800 ≤ high ∧ high < 0xDC00 then
      if 0xDC00 ≤ low ∧ low < 0xE000 then
        let code := 0x10000 + (high - 0xD800) * 0x400 + (low - 0xDC00)
        (characters? rest).map (Char.ofNat code :: ·)
      else none
    else if 0xDC00 ≤ high ∧ high < 0xE000 then none
    else (characters? (.unit low :: rest)).map (Char.ofNat high :: ·)
  | .unit code :: rest =>
    if 0xD800 ≤ code ∧ code < 0xE000 then none
    else (characters? rest).map (Char.ofNat code :: ·)

def digitsValue (digits : List Char) : Nat :=
  digits.foldl (fun n c => n * 10 + (c.toNat - '0'.toNat)) 0

/-- Whether digits may stand before the point: a zero that leads stands alone. -/
def isWhole : List Char → Bool
  | [] => false
  | '0' :: rest => rest.isEmpty
  | _ => true

/-- The number that digits, at least one and nothing else, stand for. -/
def allDigits? (digits : List Char) : Option Nat :=
  if digits ≠ [] ∧ digits.all Char.isDigit then some (digitsValue digits) else none

/-- The exponent part of a number, behind its `e`. -/
def exponent? : List Char → Option Int
  | '-' :: digits => (allDigits? digits).map fun n => -Int.ofNat n
  | '+' :: digits => (allDigits? digits).map Int.ofNat
  | digits => (allDigits? digits).map Int.ofNat

/-- The number of a text without its sign. One with a fraction or an exponent keeps its digits, with
the power of ten that belongs to them. -/
def unsignedNumber? (negative : Bool) (text : List Char) : Option Number :=
  let whole := text.takeWhile Char.isDigit
  if !isWhole whole then none
  else
    match text.dropWhile Char.isDigit with
    | [] =>
      if negative && digitsValue whole = 0 then some (.decimal true 0 0)
      else some (.integer (if negative then -(digitsValue whole : Int) else digitsValue whole))
    | '.' :: rest =>
      let fraction := rest.takeWhile Char.isDigit
      if fraction.isEmpty then none
      else
        let number (exponent : Int) : Number :=
          .decimal negative (digitsValue (whole ++ fraction)) (exponent - fraction.length)
        match rest.dropWhile Char.isDigit with
        | [] => some (number 0)
        | e :: rest => if e = 'e' ∨ e = 'E' then (exponent? rest).map number else none
    | e :: rest =>
      if e = 'e' ∨ e = 'E' then
        (exponent? rest).map fun exponent => .decimal negative (digitsValue whole) exponent
      else none

/-- The number that a text spells, if it spells one. -/
def number? : List Char → Option Number
  | '-' :: rest => unsignedNumber? true rest
  | text => unsignedNumber? false text

/-- What the character being read belongs to. Gathered characters are kept last first. -/
inductive Mode where
  | between
  | word (gathered : List Char)
  | number (gathered : List Char)
  | text (gathered : List Char) (escaped : Bool)
  /-- A wrong character has been met; nothing behind it counts. -/
  | stopped

/-- The token of a word, whose letters were gathered backwards. -/
def wordToken (gathered : List Char) : Token :=
  if gathered = ['l', 'l', 'u', 'n'] then .null
  else if gathered = ['e', 'u', 'r', 't'] then .bool true
  else if gathered = ['e', 's', 'l', 'a', 'f'] then .bool false
  else .bad

/-- The token of a number, whose characters were gathered backwards. -/
def numberToken (gathered : List Char) : Token :=
  match number? gathered.reverse with
  | some value => .number value
  | none => .bad

/-- The token of a text. One with half a surrogate pair is a text without characters. -/
def textToken (gathered : List Char) : Token :=
  match pieces? gathered.reverse with
  | some pieces => .string ((characters? pieces).map String.ofList)
  | none => .bad

def isNumberChar (c : Char) : Bool :=
  c.isDigit || c = '-' || c = '+' || c = '.' || c = 'e' || c = 'E'

/-- The tokens read so far, last first, and the mode. -/
structure Lexer where
  tokens : List Token
  mode : Mode

namespace Lexer

/-- Begins a token with its first character, or passes over a gap. -/
def start (tokens : List Token) (c : Char) : Lexer :=
  if isGap c then ⟨tokens, .between⟩
  else if c = '"' then ⟨tokens, .text [] false⟩
  else if c = ',' then ⟨.comma :: tokens, .between⟩
  else if c = ':' then ⟨.colon :: tokens, .between⟩
  else if c = '[' then ⟨.openBracket :: tokens, .between⟩
  else if c = ']' then ⟨.closeBracket :: tokens, .between⟩
  else if c = '\x7b' then ⟨.openBrace :: tokens, .between⟩
  else if c = '\x7d' then ⟨.closeBrace :: tokens, .between⟩
  else if c = '-' || c.isDigit then ⟨tokens, .number [c]⟩
  else if c.isLower then ⟨tokens, .word [c]⟩
  else ⟨.bad :: tokens, .stopped⟩

/-- Takes one character. A word or a number ends before the first character that is not of it, and
that character begins the next token. -/
def step (lexer : Lexer) (c : Char) : Lexer :=
  match lexer.mode with
  | .between => start lexer.tokens c
  | .word gathered =>
    if c.isLower then ⟨lexer.tokens, .word (c :: gathered)⟩
    else start (wordToken gathered :: lexer.tokens) c
  | .number gathered =>
    if isNumberChar c then ⟨lexer.tokens, .number (c :: gathered)⟩
    else start (numberToken gathered :: lexer.tokens) c
  | .text gathered escaped =>
    if c.toNat < 0x20 then ⟨.bad :: lexer.tokens, .stopped⟩
    else if escaped then ⟨lexer.tokens, .text (c :: gathered) false⟩
    else if c = '"' then ⟨textToken gathered :: lexer.tokens, .between⟩
    else ⟨lexer.tokens, .text (c :: gathered) (c = '\\')⟩
  | .stopped => lexer

/-- Two escapes, last character first, of which one is left unpaired whatever stands around them. -/
def unpaired : List Char := "\\udc00\\udc00".toList.reverse

/-- A step over a byte that belongs to no character. The text that it stands in is none; anywhere
else, also where an escape goes on, it is as wrong as a control character. -/
def stray (lexer : Lexer) : Lexer :=
  match lexer.mode with
  | .text gathered false => ⟨lexer.tokens, .text (unpaired ++ gathered) false⟩
  | _ => lexer.step '\x00'

/-- Takes a character, or a stray byte, which is none. -/
def stepPiece (lexer : Lexer) : Option Char → Lexer
  | some c => lexer.step c
  | none => lexer.stray

/-- All tokens, when there are no more characters. A text that has not ended is bad. -/
def finish (lexer : Lexer) : List Token :=
  match lexer.mode with
  | .between | .stopped => lexer.tokens.reverse
  | .word gathered => (wordToken gathered :: lexer.tokens).reverse
  | .number gathered => (numberToken gathered :: lexer.tokens).reverse
  | .text _ _ => (.bad :: lexer.tokens).reverse

end Lexer

/-- The tokens of a text. Behind a wrong character there are none. -/
def tokens (text : List Char) : List Token :=
  (text.foldl Lexer.step ⟨[], .between⟩).finish

/-! ## Assembling the fragment -/

/-- A container that is still open; what it holds is kept last first. -/
inductive Frame where
  | array (items : List Fragment)
  | object (members : List (Option String × Fragment)) (key : Option String)

/-- What may come next. -/
inductive Expects where
  | value
  | valueOrEnd
  | key
  | keyOrEnd
  | colon
  | commaOrEnd
  deriving DecidableEq, Repr

/-- The state of the reader between two tokens. -/
inductive Assembly where
  /-- Inside the given containers, innermost first. -/
  | inside (frames : List Frame) (expects : Expects)
  /-- The value is complete, or broken, and nothing but gaps has followed. -/
  | finished (value : Fragment)
  /-- Something stands behind the value. -/
  | trailing (value : Fragment)

namespace Assembly

/-- Puts a finished value where it belongs. -/
def put (value : Fragment) : List Frame → Assembly
  | [] => .finished value
  | .array items :: frames => .inside (.array (value :: items) :: frames) .commaOrEnd
  | .object members key :: frames =>
    .inside (.object ((key, value) :: members) key :: frames) .commaOrEnd

/-- Closes every open container as unfinished around `value`, innermost first. -/
def abandon (value : Option Fragment) : List Frame → Fragment
  | [] => value.getD .broken
  | .array items :: frames =>
    abandon (some (.array ((value.toList ++ items).reverse) false)) frames
  | .object members key :: frames =>
    let members := (value.toList.map fun v => (key, v)) ++ members
    abandon (some (.object members.reverse false)) frames

/-- The text goes wrong here. Where a value was due, or the colon before one, the value is broken;
elsewhere the container merely stays open. -/
def goWrong (frames : List Frame) : Expects → Assembly
  | .value | .colon => .trailing (abandon (some .broken) frames)
  | .valueOrEnd | .key | .keyOrEnd | .commaOrEnd => .trailing (abandon none frames)

/-- Takes one token: it begins a value, goes on with the container that is open, or ends it. Any
other token is wrong, and what was read so far stays. -/
def step : Assembly → Token → Assembly
  | .finished value, _ => .trailing value
  | .trailing value, _ => .trailing value
  | .inside frames expects, token =>
    let begins := expects == .value || expects == .valueOrEnd
    match token, frames with
    | .null, _ => if begins then put .null frames else goWrong frames expects
    | .bool b, _ => if begins then put (.bool b) frames else goWrong frames expects
    | .number n, _ => if begins then put (.number n) frames else goWrong frames expects
    | .openBracket, _ =>
      if begins then .inside (.array [] :: frames) .valueOrEnd else goWrong frames expects
    | .openBrace, _ =>
      if begins then .inside (.object [] none :: frames) .keyOrEnd else goWrong frames expects
    | .string text, .object members _ :: rest =>
      if begins then put (.string text) frames
      else if expects == .key || expects == .keyOrEnd then
        .inside (.object members text :: rest) .colon
      else goWrong frames expects
    | .string text, _ => if begins then put (.string text) frames else goWrong frames expects
    | .colon, _ => if expects == .colon then .inside frames .value else goWrong frames expects
    | .comma, .array _ :: _ =>
      if expects == .commaOrEnd then .inside frames .value else goWrong frames expects
    | .comma, .object _ _ :: _ =>
      if expects == .commaOrEnd then .inside frames .key else goWrong frames expects
    | .closeBracket, .array items :: rest =>
      if expects == .commaOrEnd || expects == .valueOrEnd then put (.array items.reverse true) rest
      else goWrong frames expects
    | .closeBrace, .object members _ :: rest =>
      if expects == .commaOrEnd || expects == .keyOrEnd then put (.object members.reverse true) rest
      else goWrong frames expects
    | .comma, [] | .closeBracket, _ | .closeBrace, _ | .bad, _ => goWrong frames expects

end Assembly

/-- A text as far as it is JSON: its value, and whether the text ends with it. -/
structure Document where
  value : Fragment
  ends : Bool

/-- The value that tokens make, with whether it ends and nothing follows. -/
def readTokens (tokens : List Token) : Document :=
  match tokens.foldl Assembly.step (.inside [] .value) with
  | .finished value => ⟨value, true⟩
  | .trailing value => ⟨value, false⟩
  | .inside frames expects =>
    match Assembly.goWrong frames expects with
    | .finished value | .trailing value => ⟨value, false⟩
    | .inside _ _ => ⟨.broken, false⟩

/-- Reads a text. -/
def read (text : String) : Document := readTokens (tokens text.toList)

/-- Reads bytes, which need not be those of a text throughout. -/
def readBytes (bytes : List UInt8) : Document :=
  readTokens ((Text.pieces bytes).foldl Lexer.stepPiece ⟨[], .between⟩).finish

/-! ## Fragments and complete values -/

/-- The exact decimal of a finite binary number; nothing is rounded away by it. -/
def Number.ofReal (x : Binary64) : Number :=
  match x.classify with
  | .finite significand exponent edge =>
    let d := Binary64.shortest significand exponent edge
    .decimal x.negative d.digits d.exponent
  | _ => .decimal x.negative 0 0

mutual
/-- The fragment that a complete value is read as. -/
def Fragment.ofJson : Json → Fragment
  | .null => .null
  | .bool b => .bool b
  | .int i => .number (.integer i)
  | .real x => .number (.ofReal x)
  | .string s => .string (some s)
  | .array items => .array (ofItems items) true
  | .object members => .object (ofMembers members) true

def Fragment.ofItems : List Json → List Fragment
  | [] => []
  | item :: rest => ofJson item :: ofItems rest

def Fragment.ofMembers : List (String × Json) → List (Option String × Fragment)
  | [] => []
  | (name, value) :: rest => (some name, ofJson value) :: ofMembers rest
end

end Json
end RemoteTables
