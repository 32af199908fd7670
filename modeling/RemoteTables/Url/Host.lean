import RemoteTables.Url.DomainName

/-!
# Hosts

A host is a name or a numeric address. Of a name whose last label is a number it is demanded that
the whole is an address of up to four numbers, in which the last one fills what is left; each may be
decimal, octal or hexadecimal. An address of eight groups stands in brackets; one run of zero groups
may be left out, and the last two groups may be written as four decimal numbers.

Schemes that this library knows nothing about may have any text as a host, except for characters
that would end it.
-/

set_option autoImplicit false

namespace RemoteTables

/-- Why a text is no address. -/
inductive UrlFault where
  | emptyHost
  | invalidName
  | invalidPort
  | invalidIpv4
  | invalidIpv6
  | invalidHostCharacter
  | noScheme
  deriving DecidableEq

/-- The wording of a fault. -/
def UrlFault.message : UrlFault → String
  | emptyHost => "empty host"
  | invalidName => "invalid international domain name"
  | invalidPort => "invalid port number"
  | invalidIpv4 => "invalid IPv4 address"
  | invalidIpv6 => "invalid IPv6 address"
  | invalidHostCharacter => "invalid domain character"
  | noScheme => "relative URL without a base"

/-- A host. -/
inductive Host where
  | name (text : List Char)
  /-- An address of 32 bits. -/
  | ipv4 (address : Nat)
  /-- An address of eight groups of 16 bits. -/
  | ipv6 (groups : List Nat)
  deriving DecidableEq

namespace Host

/-! ## Addresses of four numbers -/

/-- The value of digits to a base; `none` if one is too large or there is none. -/
def number? (base : Nat) (digits : List Char) : Option Nat :=
  if digits.isEmpty then none
  else digits.foldlM (fun n c => do
    let digit ← Percent.digit? c
    if digit < base then return n * base + digit else none) 0

/-- The number that a part of an address is: octal or hexadecimal with a zero in front. -/
def part? (text : List Char) : Option Nat :=
  match text with
  | '0' :: 'x' :: digits | '0' :: 'X' :: digits =>
    if digits.isEmpty then some 0 else number? 16 digits
  | '0' :: d :: digits => number? 8 (d :: digits)
  | _ => number? 10 text

/-- The parts of a name between its dots; one dot at the end does not count. -/
def parts (name : List Char) : List (List Char) :=
  let all := Text.splitOn '.' name
  if 1 < all.length ∧ all.getLast? = some [] then all.dropLast else all

/-- Whether a name must be an address of numbers. -/
def endsInNumber (name : List Char) : Bool :=
  match (parts name).getLast? with
  | some last => (!last.isEmpty && last.all Char.isDigit) || (part? last).isSome
  | none => false

/-- The address of the numbers before the last, and the last one. -/
def ipv4Of (leading : List Nat) (last : Nat) : Option Nat :=
  if leading.all (· ≤ 255) ∧ leading.length ≤ 3 ∧ last < Nat.pow 256 (4 - leading.length) then
    some (leading.foldl (fun n part => n * 256 + part) 0 * Nat.pow 256 (4 - leading.length) + last)
  else none

/-- The address that a name spells in numbers. Fewer than four are allowed, and the last one fills
what is left. -/
def ipv4? (name : List Char) : Option Nat := do
  let numbers ← (parts name).mapM part?
  ipv4Of numbers.dropLast (← numbers.getLast?)

/-! ## Addresses of eight groups -/

/-- One of the eight numbers of a long address. -/
def group? (text : List Char) : Option Nat :=
  if text.length ≤ 4 then number? 16 text else none

/-- A number of up to 255, without zeros in front. -/
def byte? (text : List Char) : Option Nat := do
  let n ← number? 10 text
  if n ≤ 255 ∧ (text.length = 1 ∨ text.head? ≠ some '0') then return n else none

/-- The two groups that four decimal numbers are. -/
def mixed? (text : List Char) : Option (List Nat) := do
  match ← (Text.splitOn '.' text).mapM byte? with
  | [a, b, c, d] => return [a * 256 + b, c * 256 + d]
  | _ => none

/-- The groups between colons; the last of them may be four decimal numbers if `mixed`. -/
def groups? (mixed : Bool) : List (List Char) → Option (List Nat)
  | [] => some []
  | [last] => (group? last).map ([·]) <|> (if mixed then mixed? last else none)
  | text :: rest => do return (← group? text) :: (← groups? mixed rest)

/-- The parts before and behind the first two colons in a row. -/
def atDoubleColon? : List Char → Option (List Char × List Char)
  | ':' :: ':' :: rest => some ([], rest)
  | c :: rest => (atDoubleColon? rest).map fun (before, behind) => (c :: before, behind)
  | [] => none

/-- The groups of a side of the double colon, which may be empty. -/
def side? (mixed : Bool) (text : List Char) : Option (List Nat) :=
  if text.isEmpty then some [] else groups? mixed (Text.splitOn ':' text)

/-- The eight numbers of a long address. Two colons in a row stand for the zeros that are missing. -/
def ipv6? (text : List Char) : Option (List Nat) :=
  match atDoubleColon? text with
  | some (before, behind) => do
    let before ← side? false before
    let behind ← side? true behind
    let given := before.length + behind.length
    if given ≤ 7 then return before ++ List.replicate (8 - given) 0 ++ behind else none
  | none => do
    let groups ← groups? true (Text.splitOn ':' text)
    if groups.length = 8 then return groups else none

/-! ## Reading and writing -/

/-- A long address between brackets. -/
def readBracketed (text : List Char) : Except UrlFault Host :=
  match text.reverse with
  | ']' :: inner =>
    match ipv6? (inner.reverse.drop 1) with
    | some groups => .ok (.ipv6 groups)
    | none => .error .invalidIpv6
  | _ => .error .invalidIpv6

/-- Reads the host of a scheme that demands names or addresses. -/
def read (forms : DomainName.Forms) (text : List Char) : Except UrlFault Host :=
  if text.head? = some '[' then readBracketed text
  else
    match DomainName.read? forms text with
    | none => .error .invalidName
    | some [] => .error .emptyHost
    | some found =>
      if endsInNumber found then
        match ipv4? found with
        | some address => .ok (.ipv4 address)
        | none => .error .invalidIpv4
      else .ok (.name found)

/-- Whether a character cannot stand in a host of any kind. -/
def endsHost (c : Char) : Bool :=
  ['\x00', '\t', '\n', '\r', ' ', '#', '/', ':', '<', '>', '?', '@', '[', '\\', ']', '^',
    '|'].contains c

/-- The host of a scheme that no rules are known for: it is taken as it is. -/
def readAny (text : List Char) : Except UrlFault Host :=
  if text.head? = some '[' then readBracketed text
  else if text.any endsHost then .error .invalidHostCharacter
  else .ok (.name (Percent.encode Percent.plainInFlat text))

/-- The first of the longest runs of zero groups, if it has two or more: where it starts and how
long it is. -/
def longestZeros (groups : List Nat) : Nat × Nat :=
  (List.range 8).foldl (fun best start =>
    let length := ((groups.drop start).takeWhile (· = 0)).length
    if 1 < length ∧ best.2 < length then (start, length) else best) (0, 0)

/-- Numbers in hexadecimal with colons between them. -/
def writeGroups (groups : List Nat) : List Char :=
  ((groups.map fun g => Nat.toDigits 16 g).intersperse [':']).flatten

/-- A host as it is written. The longest run of zeros in a long address is left out. -/
def write : Host → List Char
  | .name text => text
  | .ipv4 address =>
    (([3, 2, 1, 0].map fun place => Nat.toDigits 10 (address / Nat.pow 256 place % 256)).intersperse
      ['.']).flatten
  | .ipv6 groups =>
    let (start, length) := longestZeros groups
    let inner :=
      if length = 0 then writeGroups groups
      else writeGroups (groups.take start) ++ [':', ':'] ++
        writeGroups (groups.drop (start + length))
    '[' :: inner ++ [']']

end Host
end RemoteTables
