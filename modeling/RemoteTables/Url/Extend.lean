import RemoteTables.Url.Basic

/-!
# Adding to addresses

Segments and parameters can be added to an address. A segment is encoded so that nothing in it is
mistaken for grammar; but tabs and line breaks are dropped from it as from everything written, and
what is left then is what counts. A segment of two points that comes about in this way takes away
the segment before it, and one of a single point or of nothing leaves an empty segment.

An empty segment at the end of the address that is added to, which a slash at its end makes, is
filled by the first segment that is added. In front of the path of a file the letter of a drive gets
its form, as when it is read. Parameters go behind those that are there.
-/

set_option autoImplicit false

namespace RemoteTables
namespace Url

/-- A text as a segment. -/
def encodeSegment (special : Bool) (text : String) : List Char :=
  Percent.encode (Percent.plainInSegment special)
    (text.toList.filter fun c => !(['\t', '\n', '\r'].contains c))

/-- A path without an empty segment at its end, unless that is all there is. -/
def withoutEmptyEnd (path : List (List Char)) : List (List Char) :=
  if path ≠ [[]] ∧ path.getLast? = some [] then path.dropLast else path

/-- The segments that stand in front of one that is added. A single empty one is filled by it. -/
def front (path : List (List Char)) : List (List Char) := if path = [[]] then [] else path

/-- A path with an encoded segment added. -/
def addSegment (file : Bool) (path : List (List Char)) (segment : List Char) : List (List Char) :=
  if segment = ['.', '.'] then shorten file (front path) ++ [[]]
  else if segment = ['.'] then front path ++ [[]]
  else extend file (front path) segment

/-- An address with a segment for each text. -/
def addSegments (u : Url) (texts : List String) : Url :=
  match u.path with
  | .flat _ => u
  | .segments path =>
    let encoded := texts.map (encodeSegment (isSpecial u.scheme))
    { u with path :=
      .segments (encoded.foldl (addSegment (isFile u.scheme)) (withoutEmptyEnd path)) }

/-- A parameter in a query. -/
def encodeParameter (pair : String × String) : List Char :=
  Percent.encodeForm pair.1.toList ++ '=' :: Percent.encodeForm pair.2.toList

/-- An address with more parameters. -/
def addParameters (u : Url) (pairs : List (String × String)) : Url :=
  if pairs.isEmpty then u
  else
    let added := ((pairs.map encodeParameter).intersperse ['&']).flatten
    let query := match u.query with
      | none | some [] => added
      | some present => present ++ '&' :: added
    { u with query := some query }

end Url
end RemoteTables
