import PhasedUpgrade.Digest.Basic
import PhasedUpgrade.Identifier.EventId
import PhasedUpgrade.Proofs.Audit.Bytes

/-!
# Identifiers and digests as texts

Identifiers of executions and of events and digests are read as they were written.
-/

namespace PhasedUpgrade

/-! ## Hexadecimal digits -/

namespace Text

theorem hexNumber?_append (value : Nat) (digits more : List Char) :
    hexNumber? value (digits ++ more) = (hexNumber? value digits).bind (hexNumber? · more) := by
  induction digits generalizing value with
  | nil => rfl
  | cons c rest ih =>
      cases digit : hexValue? c with
      | none => simp [hexNumber?, digit]
      | some found => simp [hexNumber?, digit, ih]

theorem hexNumber?_hexChars (before width value : Nat) :
    hexNumber? before (hexChars width value) =
      some (16 ^ width * before + value % 16 ^ width) := by
  induction width generalizing value with
  | zero => simp [hexChars, hexNumber?, Nat.mod_one]
  | succ width ih =>
      have digit : hexValue? (hexDigit (value % 16)) = some (value % 16) :=
        hexValue?_hexDigit (Nat.mod_lt _ (by decide))
      have split : value % 16 ^ (width + 1) = value % 16 + 16 * (value / 16 % 16 ^ width) := by
        rw [Nat.pow_succ', Nat.mod_mul]
      have shift : 16 ^ (width + 1) * before = 16 * (16 ^ width * before) := by
        rw [Nat.pow_succ', Nat.mul_assoc]
      rw [hexChars, hexNumber?_append, ih, Option.bind_some, split, shift]
      simp only [hexNumber?, digit, Option.bind_eq_bind, Option.bind_some]
      congr 1
      omega

end Text

/-! ## Events -/

namespace EventId

theorem ungrouped_grouped {digits : List Char} (width : digits.length = 32) :
    ungrouped (grouped digits) = some digits := by
  have long : (grouped digits).length = 36 := by simp [grouped, width]
  have hyphens : (grouped digits)[8]? = some '-' ∧ (grouped digits)[13]? = some '-' ∧
      (grouped digits)[18]? = some '-' ∧ (grouped digits)[23]? = some '-' := by
    simp [grouped, width]
  have parts : (grouped digits).take 8 ++ ((grouped digits).drop 9).take 4 ++
      ((grouped digits).drop 14).take 4 ++ ((grouped digits).drop 19).take 4 ++
      (grouped digits).drop 24 = digits.take 8 ++ (digits.drop 8).take 4 ++
      (digits.drop 12).take 4 ++ (digits.drop 16).take 4 ++ digits.drop 20 := by
    simp [grouped, List.drop_append, List.drop_take, width]
  have whole : digits.take 8 ++ (digits.drop 8).take 4 ++ (digits.drop 12).take 4 ++
      (digits.drop 16).take 4 ++ digits.drop 20 = digits := by
    rw [← List.take_add, ← List.take_add, ← List.take_add, List.take_append_drop]
  rw [ungrouped, if_pos ⟨long, hyphens⟩, parts, whole]

theorem ofText?_text (id : EventId) : ofText? id.text = some id := by
  have width := Text.length_hexChars 32 id.value.toNat
  have long : (grouped (Text.hexChars 32 id.value.toNat)).length = 36 := by
    simp [grouped, width]
  have small : id.value.toNat % 16 ^ 32 = id.value.toNat := Nat.mod_eq_of_lt id.value.isLt
  have chosen : digits? (grouped (Text.hexChars 32 id.value.toNat)) =
      some (Text.hexChars 32 id.value.toNat) := by
    rw [digits?, if_neg (by omega), if_pos long, ungrouped_grouped width]
  have read : Text.hexNumber? 0 (Text.hexChars 32 id.value.toNat) = some id.value.toNat := by
    rw [Text.hexNumber?_hexChars, Nat.mul_zero, Nat.zero_add, small]
  simp [ofText?, text, chosen, read]

end EventId

/-! ## Executions -/

namespace ExecutionId

theorem digitValue?_digit {value : Nat} (small : value < 32) :
    digitValue? (digits.getD value '0') = some value := by
  have each : ∀ value < 32, digitValue? (digits.getD value '0') = some value := by decide
  exact each value small

theorem number?_append (value : Nat) (chars more : List Char) :
    number? value (chars ++ more) = (number? value chars).bind (number? · more) := by
  induction chars generalizing value with
  | nil => rfl
  | cons c rest ih =>
      cases digit : digitValue? c with
      | none => simp [number?, digit]
      | some found => simp [number?, digit, ih]

theorem number?_digitChars (width value : Nat) :
    number? 0 (digitChars width value) = some (value % 32 ^ width) := by
  induction width generalizing value with
  | zero => simp [digitChars, number?, Nat.mod_one]
  | succ width ih =>
      have digit : digitValue? (digits.getD (value % 32) '0') = some (value % 32) :=
        digitValue?_digit (Nat.mod_lt _ (by decide))
      have split : value % 32 ^ (width + 1) = value % 32 + 32 * (value / 32 % 32 ^ width) := by
        rw [Nat.pow_succ', Nat.mod_mul]
      rw [digitChars, number?_append, ih, Option.bind_some, split]
      simp only [number?, digit, Option.bind_eq_bind, Option.bind_some]
      congr 1
      omega

theorem ofText?_text (id : ExecutionId) : ofText? id.text = some id := by
  have width : id.text.length = 26 := by
    rw [text, String.length_ofList, length_chars]
  have small : id.value.toNat % 32 ^ 26 = id.value.toNat :=
    Nat.mod_eq_of_lt (Nat.lt_trans id.value.isLt (by decide))
  rw [ofText?, if_pos width, text, String.toList_ofList, chars, number?_digitChars, small]
  simp

theorem text_inj {a b : ExecutionId} : a.text = b.text ↔ a = b := by
  refine ⟨fun same => ?_, fun same => same ▸ rfl⟩
  have read := ofText?_text a
  rw [same, ofText?_text b] at read
  exact (Option.some.inj read).symm

end ExecutionId

/-! ## Digests -/

namespace Digest

theorem bytesOfChars?_pair (value : Nat) (rest : List Char) :
    bytesOfChars? (Text.hexChars 2 value ++ rest) =
      (bytesOfChars? rest).map (UInt8.ofNat value :: ·) := by
  have bounds : value / 16 % 16 < 16 ∧ value % 16 < 16 := by omega
  have high := Text.hexValue?_hexDigit bounds.1
  have low := Text.hexValue?_hexDigit bounds.2
  have byte : UInt8.ofNat (16 * (value / 16 % 16) + value % 16) = UInt8.ofNat value :=
    byte_eq_iff.mpr (by omega)
  simp only [Text.hexChars, List.nil_append, List.cons_append, bytesOfChars?, high, low,
    Option.bind_eq_bind, Option.bind_some, byte]
  cases bytesOfChars? rest <;> rfl

theorem bytesOfChars?_bytesText (bytes : List UInt8) :
    bytesOfChars? (bytesText bytes).toList = some bytes := by
  rw [bytesText, String.toList_ofList]
  induction bytes with
  | nil => rfl
  | cons byte rest ih =>
      rw [List.flatMap_cons, bytesOfChars?_pair, ih, Option.map_some, UInt8.ofNat_toNat]

theorem ofText?_text (digest : Digest) : ofText? digest.text = some digest := by
  simp [ofText?, text, bytesOfChars?_bytesText, digest.length_bytes]

end Digest

end PhasedUpgrade
