/-!
# Blank characters

Three places of the library cut blanks off a text: the list of table names in the settings, the
test for an empty token, and the timestamp reader, which allows blanks between the parts of an
instant. All three mean the same class, the characters with Unicode's `White_Space` property, so
it is written down once, as data, and the cutting is `dropWhile` over it.
-/

set_option autoImplicit false

namespace RemoteTables

/-- The code points that have the property `White_Space`, as closed intervals. -/
def blankRanges : List (Nat × Nat) :=
  [(0x09, 0x0D), (0x20, 0x20), (0x85, 0x85), (0xA0, 0xA0), (0x1680, 0x1680), (0x2000, 0x200A),
   (0x2028, 0x2029), (0x202F, 0x202F), (0x205F, 0x205F), (0x3000, 0x3000)]

/-- Whether a character is white space. -/
def isBlank (c : Char) : Bool :=
  blankRanges.any fun (low, high) => low ≤ c.toNat && c.toNat ≤ high

namespace Text

def trimStart (text : List Char) : List Char := text.dropWhile isBlank

/-- The text without the blanks at its two ends. -/
def trim (text : List Char) : List Char :=
  (trimStart (trimStart text).reverse).reverse

/-- The parts of a text between its separators: one more than there are separators. -/
def splitOn (separator : Char) : List Char → List (List Char)
  | [] => [[]]
  | c :: rest =>
    if c = separator then [] :: splitOn separator rest
    else
      match splitOn separator rest with
      | [] => [[c]]
      | part :: parts => (c :: part) :: parts

theorem trimStart_eq_self {text : List Char} (h : ∀ c ∈ text.head?, isBlank c = false) :
    trimStart text = text := by
  cases text with
  | nil => rfl
  | cons c rest => simp [trimStart, List.dropWhile, h c (by simp)]

end Text

end RemoteTables
