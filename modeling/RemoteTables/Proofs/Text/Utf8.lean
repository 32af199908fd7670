import RemoteTables.Text.Utf8

/-!
# Bytes that are a text

The bytes of a text come apart into its characters and nothing else (`pieces_utf8`).
-/

set_option autoImplicit false

namespace RemoteTables
namespace Text

/-- The UTF-8 form of a text. -/
def utf8 (text : List Char) : List UInt8 := text.flatMap String.utf8EncodeChar

@[simp] theorem utf8_nil : utf8 [] = [] := rfl

@[simp] theorem utf8_cons (c : Char) (text : List Char) :
    utf8 (c :: text) = String.utf8EncodeChar c ++ utf8 text := rfl

theorem utf8_toList (s : String) : utf8 s.toList = s.toUTF8.data.toList := by
  rw [String.toUTF8_eq_toByteArray, ← String.utf8Encode_toList]
  exact List.toList_data_toByteArray.symm

/-- The bytes of a character are taken together, with any bytes behind them. -/
theorem pieces_utf8EncodeChar (c : Char) (rest : List UInt8) :
    pieces (String.utf8EncodeChar c ++ rest) = some c :: pieces rest := by
  cases hbytes : String.utf8EncodeChar c with
  | nil => exact absurd hbytes String.utf8EncodeChar_ne_nil
  | cons b more =>
    have hlength : more.length + 1 = c.utf8Size := by
      rw [← String.length_utf8EncodeChar c, hbytes, List.length_cons]
    have htake : (more ++ rest).take 3 = more ++ rest.take (3 - more.length) := by
      have hfour := c.utf8Size_le_four
      rw [List.take_append, List.take_of_length_le (by omega)]
    have hdecode : (b :: (more ++ rest).take 3).toByteArray.utf8DecodeChar? 0 = some c := by
      rw [htake, ← List.cons_append, ← hbytes, List.toByteArray_append]
      exact ByteArray.utf8DecodeChar?_utf8EncodeChar_append
    rw [List.cons_append, pieces]
    simp only [hdecode]
    rw [List.drop_left' (by omega)]

/-- **The bytes of a text are its characters.** -/
theorem pieces_utf8 (text : List Char) : pieces (utf8 text) = text.map some := by
  induction text with
  | nil => rw [utf8_nil, pieces, List.map_nil]
  | cons c text ih => rw [utf8_cons, pieces_utf8EncodeChar, ih, List.map_cons]

end Text
end RemoteTables
