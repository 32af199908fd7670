import RemoteTables.Proofs.Text.Utf8
import RemoteTables.Url.Percent

/-!
# What is encoded is decoded

Decoding looks two characters ahead, but only behind a percent sign. So an encoder that never leaves
a percent sign as it is can be undone character by character, with any text behind
(`decode_encode`, `decodeForm_encodeForm`), and what comes out is the UTF-8 form of what went in.

The other half of an encoder's task is what it does not write: a character of the result is one that
it leaves as it is, or one that escapes are made of (`mem_encode`, `mem_encodeForm`).
-/

set_option autoImplicit false

namespace RemoteTables
namespace Percent

open Text (utf8 utf8_cons)

/-- A text is found again in its UTF-8 form. -/
theorem text?_utf8 (s : String) : text? (utf8 s.toList) = some s := by
  have hbytes : (⟨(utf8 s.toList).toArray⟩ : ByteArray) = s.toByteArray := by
    rw [← String.utf8Encode_toList]
    exact ByteArray.ext List.data_toByteArray.symm
  rw [text?, hbytes, String.fromUTF8?, dif_pos s.isValidUTF8]
  rfl

theorem utf8_inj {s t : List Char} (h : utf8 s = utf8 t) : s = t := by
  have htext : some (String.ofList s) = some (String.ofList t) := by
    rw [← text?_utf8, ← text?_utf8, String.toList_ofList, String.toList_ofList, h]
  exact String.ofList_injective (Option.some.inj htext)

/-! ## Escapes -/

/-- The characters that escapes are made of. -/
def escapeChars : List Char := "%0123456789ABCDEF".toList

theorem digit?_upperDigit : ∀ n < 16, digit? (Nat.digitChar n).toUpper = some n := by decide

theorem upperDigit_mem : ∀ n < 16, (Nat.digitChar n).toUpper ∈ escapeChars := by decide

/-- A byte has two hexadecimal digits. -/
theorem digits_lt (b : UInt8) : b.toNat / 16 < 16 ∧ b.toNat % 16 < 16 := by
  have hbyte := b.toNat_lt
  omega

theorem decode_ofByte (b : UInt8) (rest : List Char) :
    decode (ofByte b ++ rest) = b :: decode rest := by
  obtain ⟨hhigh, hlow⟩ := digits_lt b
  have hsum : b.toNat / 16 * 16 + b.toNat % 16 = b.toNat := by omega
  simp only [ofByte, List.cons_append, List.nil_append]
  rw [decode, digit?_upperDigit _ hhigh, digit?_upperDigit _ hlow]
  simp only [hsum, UInt8.ofNat_toNat]

theorem mem_ofByte {b : UInt8} {c : Char} (h : c ∈ ofByte b) : c ∈ escapeChars := by
  obtain ⟨hhigh, hlow⟩ := digits_lt b
  simp only [ofByte, List.mem_cons, List.not_mem_nil, or_false] at h
  rcases h with rfl | rfl | rfl
  · decide
  · exact upperDigit_mem _ hhigh
  · exact upperDigit_mem _ hlow

theorem decode_ofBytes (bytes : List UInt8) (rest : List Char) :
    decode (bytes.flatMap ofByte ++ rest) = bytes ++ decode rest := by
  induction bytes with
  | nil => rfl
  | cons b bytes ih =>
    rw [List.flatMap_cons, List.append_assoc, decode_ofByte, ih, List.cons_append]

theorem decode_ofChar (c : Char) (rest : List Char) :
    decode (ofChar c ++ rest) = String.utf8EncodeChar c ++ decode rest :=
  decode_ofBytes _ rest

theorem mem_ofChar {b c : Char} (h : c ∈ ofChar b) : c ∈ escapeChars := by
  obtain ⟨_, _, h⟩ := List.mem_flatMap.mp h
  exact mem_ofByte h

/-- A character that does not start an escape stands for itself. -/
theorem decode_cons {c : Char} (h : c ≠ '%') (rest : List Char) :
    decode (c :: rest) = String.utf8EncodeChar c ++ decode rest := by
  rw [decode]
  rintro a b rest rfl
  exact absurd rfl h

/-! ## Encoders -/

section Encode

variable {plain : Char → Bool}

/-- **What is encoded is decoded**, whatever is left as it is besides the percent sign. -/
theorem decode_encode (hplain : plain '%' = false) (text : List Char) :
    decode (encode plain text) = utf8 text := by
  unfold encode
  induction text with
  | nil => rfl
  | cons c text ih =>
    rw [List.flatMap_cons, utf8_cons, ← ih]
    split
    next hc =>
      have hpercent : c ≠ '%' := fun h => by rw [h, hplain] at hc; cases hc
      exact decode_cons hpercent _
    next => exact decode_ofChar c _

theorem encode_of_plain {text : List Char} (h : ∀ c ∈ text, plain c = true) :
    encode plain text = text := by
  unfold encode
  induction text with
  | nil => rfl
  | cons c text ih =>
    obtain ⟨hc, htext⟩ := List.forall_mem_cons.mp h
    rw [List.flatMap_cons, if_pos hc, ih htext]
    rfl

theorem mem_encode {c : Char} {text : List Char} (h : c ∈ encode plain text) :
    (plain c = true ∧ c ∈ text) ∨ c ∈ escapeChars := by
  obtain ⟨b, hb, h⟩ := List.mem_flatMap.mp h
  split at h
  next hplain =>
    obtain rfl := List.mem_singleton.mp h
    exact .inl ⟨hplain, hb⟩
  next => exact .inr (mem_ofChar h)

/-- A character that an encoder replaces, or does not meet, is in its result only as a part of an
escape. -/
theorem not_mem_encode {c : Char} {text : List Char} (h : plain c = false ∨ c ∉ text)
    (hescape : c ∉ escapeChars) : c ∉ encode plain text := fun hc => by
  rcases mem_encode hc with ⟨hplain, htext⟩ | hc
  · rcases h with h | h
    · rw [h] at hplain
      cases hplain
    · exact h htext
  · exact hescape hc

end Encode

theorem plainInForm_ne {c d : Char} (hc : plainInForm c = true) (hd : plainInForm d = false) :
    c ≠ d := fun h => by
  rw [h, hd] at hc
  cases hc

/-- **What is encoded for a form is decoded from it.** -/
theorem decodeForm_encodeForm (text : List Char) : decodeForm (encodeForm text) = utf8 text := by
  unfold decodeForm encodeForm
  induction text with
  | nil => rfl
  | cons c text ih =>
    rw [List.flatMap_cons, List.map_append, utf8_cons, ← ih]
    split
    next hc =>
      rw [List.map_singleton, if_neg (plainInForm_ne hc (by decide))]
      exact decode_cons (plainInForm_ne hc (by decide)) _
    next =>
      split
      next hspace =>
        subst hspace
        exact decode_cons (by decide) _
      next =>
        -- no escape has a plus sign in it
        have hplus : ∀ b ∈ ofChar c, (if b = '+' then ' ' else b) = b := fun b hb =>
          if_neg fun h => absurd (h ▸ mem_ofChar hb) (by decide)
        rw [List.map_congr_left hplus, List.map_id']
        exact decode_ofChar c _

theorem mem_encodeForm {c : Char} {text : List Char} (h : c ∈ encodeForm text) :
    plainInForm c = true ∨ c = '+' ∨ c ∈ escapeChars := by
  obtain ⟨b, _, h⟩ := List.mem_flatMap.mp h
  split at h
  next hb => exact .inl (List.mem_singleton.mp h ▸ hb)
  next =>
    split at h
    · exact .inr (.inl (List.mem_singleton.mp h))
    · exact .inr (.inr (mem_ofChar h))

end Percent
end RemoteTables
