/-!
# Bytes as characters

Bytes from outside need not be the UTF-8 form of a text. They are taken apart all the same, into the
characters that are there and the bytes that belong to none.
-/

set_option autoImplicit false

namespace RemoteTables
namespace Text

/-- The characters of bytes in order, and `none` for each byte that belongs to no character. -/
def pieces : List UInt8 → List (Option Char)
  | [] => []
  | b :: rest =>
    -- no character has more than four bytes
    match (b :: rest.take 3).toByteArray.utf8DecodeChar? 0 with
    | some c => some c :: pieces (rest.drop (c.utf8Size - 1))
    | none => none :: pieces rest
termination_by bytes => bytes.length
decreasing_by all_goals simp; try omega

end Text
end RemoteTables
