import RemoteTables.Url.Host

/-!
# Addresses

An address has a scheme, then possibly an authority (a user, a host, a port), a path, and possibly a
query and a fragment. All parts are kept as they are written in an address, that is, encoded. The
path is a list of segments, since segments are what is added to it later; only behind a scheme
without any slash is it one flat text, to which nothing can be added.

Reading follows the standard for addresses on the web. Controls and blanks at the ends, tabs and
line breaks anywhere are dropped. For the well-known schemes, backslashes are slashes, any number of
them (also none) may stand before the authority, and a host is demanded. Segments of dots are
resolved while the path is read, and the path of a file may start with the letter of a drive, which
has a form of its own and is never left.

What a name outside ASCII stands for is left to a function of names (`DomainName.Forms`).
-/

set_option autoImplicit false

namespace RemoteTables

/-- The path of an address. -/
inductive UrlPath where
  /-- A text without structure. -/
  | flat (text : List Char)
  | segments (list : List (List Char))
  deriving DecidableEq

/-- An address; all parts are encoded. -/
structure Url where
  scheme : List Char
  /-- The user, the host and the port, as far as they are given. -/
  authority : Option (List Char)
  path : UrlPath
  query : Option (List Char)
  fragment : Option (List Char)
  deriving DecidableEq

namespace Url

/-! ## Schemes -/

/-- The well-known schemes, and the ports they stand for. -/
def specialSchemes : List (String × Option Nat) :=
  [("http", some 80), ("https", some 443), ("ws", some 80), ("wss", some 443), ("ftp", some 21),
   ("file", none)]

/-- Whether a scheme is one of the well-known ones. -/
def isSpecial (scheme : List Char) : Bool :=
  (specialSchemes.lookup (String.ofList scheme)).isSome

/-- Whether a scheme is that of files. -/
def isFile (scheme : List Char) : Bool := scheme = "file".toList

/-- The port that is not written, if a scheme has one. -/
def defaultPort? (scheme : List Char) : Option Nat :=
  (specialSchemes.lookup (String.ofList scheme)).join

/-- Whether a character may stand in a scheme behind the first one. -/
def isSchemeChar (c : Char) : Bool := c.isAlphanum || c = '+' || c = '-' || c = '.'

/-- The scheme that a text starts with, and the text behind its colon. -/
def readScheme? (text : List Char) : Option (List Char × List Char) :=
  match text.head?, text.dropWhile isSchemeChar with
  | some first, ':' :: rest =>
    if first.isAlpha then some ((text.takeWhile isSchemeChar).map Char.toLower, rest) else none
  | _, _ => none

/-! ## The authority -/

/-- Whether a character ends the authority. -/
def endsAuthority (special : Bool) (c : Char) : Bool :=
  c = '/' || c = '?' || c = '#' || (special && c = '\\')

/-- The texts before and behind the last at sign, if there is one. -/
def atLastAt? (text : List Char) : Option (List Char × List Char) :=
  let behind := text.reverse.takeWhile (· != '@')
  if behind.length = text.length then none
  else some (text.take (text.length - behind.length - 1), behind.reverse)

/-- The user of an authority, encoded, with the sign that ends it. A colon is kept only before a
password. -/
def writeUser (text : List Char) : List Char :=
  let encode := Percent.encode Percent.plainInUser
  let name := text.takeWhile (· != ':')
  let password := (text.dropWhile (· != ':')).drop 1
  let user := encode name ++ if password.isEmpty then [] else ':' :: encode password
  if user.isEmpty then [] else user ++ ['@']

/-- The host that a text starts with: up to a colon outside brackets, or the end of the authority;
and the rest of the text. -/
def splitHost (special : Bool) : (inBrackets : Bool) → List Char → List Char × List Char
  | _, [] => ([], [])
  | inBrackets, c :: rest =>
    if (c = ':' && !inBrackets) || endsAuthority special c then ([], c :: rest)
    else
      let inBrackets := if c = '[' then true else if c = ']' then false else inBrackets
      let (host, after) := splitHost special inBrackets rest
      (c :: host, after)

/-- The port that a text behind a colon starts with, if there are digits, and the rest. -/
def readPort (special : Bool) (text : List Char) : Except UrlFault (Option Nat × List Char) :=
  let digits := text.takeWhile Char.isDigit
  let rest := text.dropWhile Char.isDigit
  if !rest.head?.all fun c => endsAuthority special c then .error .invalidPort
  else
    match Host.number? 10 digits with
    | none => .ok (none, rest)
    | some port => if port < UInt16.size then .ok (some port, rest) else .error .invalidPort

/-- Reads the host of a scheme; the well-known ones demand one. -/
def readHost (forms : DomainName.Forms) (special : Bool) (text : List Char) :
    Except UrlFault Host :=
  if !special then Host.readAny text
  else if text.isEmpty then .error .emptyHost
  else Host.read forms text

/-- Reads the host and the port behind a user, and gives what follows them. -/
def readHostAndPort (forms : DomainName.Forms) (scheme user text : List Char) :
    Except UrlFault (List Char × List Char) := do
  let special := isSpecial scheme
  let (hostText, rest) := splitHost special false text
  let host ← readHost forms special hostText
  let written := host.write
  match rest with
  | ':' :: rest =>
    if written.isEmpty then throw .emptyHost
    let (port, rest) ← readPort special rest
    let shown := match port with
      | some port => if defaultPort? scheme = some port then [] else ':' :: Nat.toDigits 10 port
      | none => []
    return (user ++ written ++ shown, rest)
  | _ =>
    if written.isEmpty && !user.isEmpty then throw .emptyHost
    return (user ++ written, rest)

/-- Reads an authority, and gives what follows it. -/
def readAuthority (forms : DomainName.Forms) (scheme text : List Char) :
    Except UrlFault (List Char × List Char) :=
  let ends := endsAuthority (isSpecial scheme)
  let after := text.dropWhile fun c => !ends c
  match atLastAt? (text.takeWhile fun c => !ends c) with
  | none => readHostAndPort forms scheme [] text
  | some (user, rest) =>
    if user.isEmpty && rest.isEmpty && !after.isEmpty then .error .emptyHost
    else readHostAndPort forms scheme (writeUser user) (rest ++ after)

/-! ## Paths -/

/-- A segment with its encoded points shown. -/
def showPoints : List Char → List Char
  | '%' :: '2' :: 'e' :: rest | '%' :: '2' :: 'E' :: rest => '.' :: showPoints rest
  | c :: rest => c :: showPoints rest
  | [] => []

/-- Whether a segment stands for the place itself. -/
def isHere (segment : List Char) : Bool := showPoints segment = ['.']

/-- Whether a segment stands for the place above. -/
def isAbove (segment : List Char) : Bool := showPoints segment = ['.', '.']

/-- Whether a text is the letter of a drive, which is no host. -/
def isDrive (text : List Char) : Bool :=
  match text with
  | [letter, mark] => letter.isAlpha && (mark = ':' || mark = '|')
  | _ => false

/-- A segment, which gets a colon if it is the letter of a drive. -/
def driveForm (segment : List Char) : List Char :=
  if isDrive segment then segment.take 1 ++ [':'] else segment

/-- A path without its last segment. The letter of a drive stays. -/
def shorten (file : Bool) (path : List (List Char)) : List (List Char) :=
  match path with
  | [[letter, ':']] => if file && letter.isAlpha then path else []
  | _ => path.dropLast

/-- A path with a segment behind it, or a drive if it stands in front. -/
def extend (file : Bool) (path : List (List Char)) (segment : List Char) : List (List Char) :=
  path ++ [if file && path.isEmpty then driveForm segment else segment]

/-- A path with one more segment of a written path, the last of it or not. Behind a place that was
only named there is an empty segment, if nothing follows. -/
def addWritten (file : Bool) (path : List (List Char)) (last : Bool) (segment : List Char) :
    List (List Char) :=
  let ending := if last then [[]] else []
  if isAbove segment then shorten file path ++ ending
  else if isHere segment then path ++ ending
  else extend file path segment

/-- A path with all segments of a written path. -/
def addAll (file : Bool) (path : List (List Char)) : List (List Char) → List (List Char)
  | [] => path
  | [last] => addWritten file path true last
  | segment :: rest => addAll file (addWritten file path false segment) rest

/-- The segments of a written path, without the slash in front of it. -/
def readPath (scheme text : List Char) : List (List Char) :=
  let slashes := text.map fun c => if isSpecial scheme && c = '\\' then '/' else c
  addAll (isFile scheme) []
    ((Text.splitOn '/' slashes).map (Percent.encode Percent.plainInPath))

/-- The path behind an authority. The well-known schemes always have one. -/
def readPathStart (scheme text : List Char) : List (List Char) :=
  match text with
  | [] => if isSpecial scheme then [[]] else []
  | '/' :: rest => readPath scheme rest
  | '\\' :: rest => readPath scheme (if isSpecial scheme then rest else text)
  | _ => readPath scheme text

/-! ## The whole -/

/-- The path, the query and the fragment of the end of an address, still as written. -/
def splitEnd (text : List Char) : List Char × Option (List Char) × Option (List Char) :=
  let front := text.takeWhile (· != '#')
  let fragment := match text.dropWhile (· != '#') with
    | _ :: rest => some rest
    | [] => none
  let query := match front.dropWhile (· != '?') with
    | _ :: rest => some rest
    | [] => none
  (front.takeWhile (· != '?'), query, fragment)

/-- The address of a scheme, an authority, and the end of the text, with the path read by `path`. -/
def assemble (scheme : List Char) (authority : Option (List Char)) (text : List Char)
    (path : List Char → UrlPath) : Url :=
  let (written, query, fragment) := splitEnd text
  ⟨scheme, authority, path written,
    query.map (Percent.encode (Percent.plainInQuery (isSpecial scheme))),
    fragment.map (Percent.encode Percent.plainInFragment)⟩

/-- Whether a character is a slash of a well-known scheme. -/
def isSlash (c : Char) : Bool := c = '/' || c = '\\'

/-- Reads the address of a file. The host may be left out, and this machine is none. -/
def readFile (forms : DomainName.Forms) (scheme text : List Char) : Except UrlFault Url := do
  let path (text : List Char) : UrlPath := .segments (readPathStart scheme text)
  match text with
  | a :: b :: rest =>
    if isSlash a && isSlash b then
      let hostText := rest.takeWhile fun c => !endsAuthority true c
      if isDrive hostText then return assemble scheme (some []) rest path
      else
        let after := rest.dropWhile fun c => !endsAuthority true c
        let written ← if hostText.isEmpty then pure [] else Host.write <$> Host.read forms hostText
        let shown := if written = "localhost".toList then [] else written
        return assemble scheme (some shown) after path
    else return assemble scheme (some []) text path
  | _ => return assemble scheme (some []) text path

/-- Reads an address whose scheme was read. -/
def readAfterScheme (forms : DomainName.Forms) (scheme text : List Char) : Except UrlFault Url :=
  let path (text : List Char) : UrlPath := .segments (readPathStart scheme text)
  if isFile scheme then readFile forms scheme text
  else if isSpecial scheme then do
    let (authority, rest) ← readAuthority forms scheme (text.dropWhile isSlash)
    return assemble scheme (some authority) rest path
  else
    match text with
    | '/' :: '/' :: rest => do
      let (authority, rest) ← readAuthority forms scheme rest
      return assemble scheme (some authority) rest path
    | '/' :: _ => .ok (assemble scheme none text path)
    | _ => .ok (assemble scheme none text fun written =>
        .flat (Percent.encode Percent.plainInFlat written))

/-- A text without what is dropped from it before it is read. -/
def clean (text : List Char) : List Char :=
  let inner := ((text.dropWhile (· ≤ ' ')).reverse.dropWhile (· ≤ ' ')).reverse
  inner.filter fun c => !(['\t', '\n', '\r'].contains c)

/-- Reads an address. -/
def read (forms : DomainName.Forms) (text : String) : Except UrlFault Url :=
  match readScheme? (clean text.toList) with
  | some (scheme, rest) => readAfterScheme forms scheme rest
  | none => .error .noScheme

/-- A path as an address has it. Without an authority, a path that starts with an empty segment is
kept apart from one. -/
def writePath (authority : Option (List Char)) : UrlPath → List Char
  | .flat text => text
  | .segments list =>
    let mistakable := authority.isNone && list.head? = some [] && 1 < list.length
    (if mistakable then ['/', '.'] else []) ++ list.flatMap ('/' :: ·)

/-- The address as a text. -/
def write (u : Url) : String :=
  let authority := match u.authority with
    | some text => '/' :: '/' :: text
    | none => []
  let query := match u.query with
    | some text => '?' :: text
    | none => []
  let fragment := match u.fragment with
    | some text => '#' :: text
    | none => []
  String.ofList
    (u.scheme ++ ':' :: authority ++ writePath u.authority u.path ++ query ++ fragment)

end Url
end RemoteTables
