/-!
# Bytes as characters

What bytes spell, even where some of them do not belong to any character.
-/

namespace PhasedUpgrade.Text

/--
The characters that bytes from a place on spell; `none` is a byte that belongs to no character.
-/
def charsFrom (bytes : ByteArray) (place : Nat) : List (Option Char) :=
  if place < bytes.size then
    match bytes.utf8DecodeChar? place with
    | some c => some c :: charsFrom bytes (place + c.utf8Size)
    | none => none :: charsFrom bytes (place + 1)
  else []
termination_by bytes.size - place
decreasing_by
  · have := c.utf8Size_pos
    omega
  · omega

theorem charsFrom_utf8Encode (front : ByteArray) (chars : List Char) :
    charsFrom (front ++ chars.utf8Encode) front.size = chars.map some := by
  induction chars generalizing front with
  | nil =>
      rw [charsFrom, if_neg (by simp)]
      rfl
  | cons c rest ih =>
      have more : front.size < (front ++ (c :: rest).utf8Encode).size := by
        have := c.utf8Size_pos
        rw [List.utf8Encode_cons, ByteArray.size_append, ByteArray.size_append,
          List.utf8Encode_singleton, List.size_toByteArray, String.length_utf8EncodeChar]
        omega
      have first : (front ++ (c :: rest).utf8Encode).utf8DecodeChar? front.size = some c := by
        rw [ByteArray.utf8DecodeChar?_eq_utf8DecodeChar?_extract,
          ByteArray.extract_append_eq_right rfl ByteArray.size_append,
          List.utf8DecodeChar?_utf8Encode_cons]
      have behind : front.size + c.utf8Size = (front ++ [c].utf8Encode).size := by
        simp [List.utf8Encode_singleton]
      rw [charsFrom, if_pos more, first]
      simp only
      rw [behind, List.utf8Encode_cons, ← ByteArray.append_assoc, ih, List.map_cons]

/-- The bytes of a text spell its characters. -/
theorem charsFrom_toUTF8 (text : String) : charsFrom text.toUTF8 0 = text.toList.map some := by
  have whole := charsFrom_utf8Encode .empty text.toList
  rwa [String.utf8Encode_toList, ByteArray.empty_append] at whole

end PhasedUpgrade.Text
