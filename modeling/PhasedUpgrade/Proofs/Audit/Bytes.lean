import Mathlib.Algebra.Order.Ring.Int
import Mathlib.Data.List.Basic
import PhasedUpgrade.Audit.Event

/-!
# What bytes tell

Numbers are told by their bytes, and identifiers by their digits, up to multiples of what the width
can hold; texts are told wholly. Texts that are each closed by the null character are told apart if
none of those on one side has that character.
-/

namespace PhasedUpgrade

theorem mod_pow_succ_eq_iff {base width a b : Nat} (pos : 0 < base) :
    a % base ^ (width + 1) = b % base ^ (width + 1) ↔
      a / base % base ^ width = b / base % base ^ width ∧ a % base = b % base := by
  have split (value : Nat) : value % base ^ (width + 1) =
      value % base + base * (value / base % base ^ width) := by
    rw [Nat.pow_succ', Nat.mod_mul]
  have last (value : Nat) : value % base ^ (width + 1) % base = value % base := by
    rw [split, Nat.add_mul_mod_self_left, Nat.mod_mod]
  have high (value : Nat) : value % base ^ (width + 1) / base = value / base % base ^ width := by
    rw [split, Nat.add_mul_div_left _ _ pos, Nat.div_eq_of_lt (Nat.mod_lt _ pos), Nat.zero_add]
  constructor
  · intro same
    exact ⟨by rw [← high, same, high], by rw [← last, same, last]⟩
  · rintro ⟨before, after⟩
    rw [split, split, before, after]

theorem byte_eq_iff {a b : Nat} : UInt8.ofNat a = UInt8.ofNat b ↔ a % 256 = b % 256 := by
  rw [← UInt8.toNat_inj]
  simp

namespace Digest.Sha256

theorem length_bigEndian (width value : Nat) : (bigEndian width value).length = width := by
  induction width generalizing value with
  | zero => rfl
  | succ width ih => rw [bigEndian, List.length_append, ih, List.length_singleton]

theorem bigEndian_eq_iff {width a b : Nat} :
    bigEndian width a = bigEndian width b ↔ a % 256 ^ width = b % 256 ^ width := by
  induction width generalizing a b with
  | zero => simp [bigEndian, Nat.mod_one]
  | succ width ih =>
      rw [bigEndian, bigEndian, List.append_singleton_inj, ih, byte_eq_iff,
        mod_pow_succ_eq_iff (by decide)]

end Digest.Sha256

namespace EventId

theorem length_bytes (id : EventId) : id.bytes.length = 16 :=
  Digest.Sha256.length_bigEndian 16 _

theorem bytes_inj {a b : EventId} : a.bytes = b.bytes ↔ a = b := by
  refine ⟨fun same => ?_, fun same => same ▸ rfl⟩
  have congruent := Digest.Sha256.bigEndian_eq_iff.mp same
  have fits (id : EventId) : id.value.toNat < 256 ^ 16 := id.value.isLt
  rw [Nat.mod_eq_of_lt (fits a), Nat.mod_eq_of_lt (fits b)] at congruent
  cases a
  cases b
  exact congrArg _ (BitVec.eq_of_toNat_eq congruent)

end EventId

namespace ExecutionId

theorem length_digitChars (width value : Nat) : (digitChars width value).length = width := by
  induction width generalizing value with
  | zero => rfl
  | succ width ih => rw [digitChars, List.length_append, ih, List.length_singleton]

theorem digit_inj {a b : Nat} (ha : a < 32) (hb : b < 32) :
    digits.getD a '0' = digits.getD b '0' ↔ a = b := by
  have distinct : ∀ a < 32, ∀ b < 32, digits.getD a '0' = digits.getD b '0' → a = b := by decide
  exact ⟨distinct a ha b hb, fun same => same ▸ rfl⟩

theorem digitChars_eq_iff {width a b : Nat} :
    digitChars width a = digitChars width b ↔ a % 32 ^ width = b % 32 ^ width := by
  induction width generalizing a b with
  | zero => simp [digitChars, Nat.mod_one]
  | succ width ih =>
      have low (value : Nat) : value % 32 < 32 := Nat.mod_lt _ (by decide)
      rw [digitChars, digitChars, List.append_singleton_inj, ih, digit_inj (low a) (low b),
        mod_pow_succ_eq_iff (by decide)]

theorem length_chars (id : ExecutionId) : id.chars.length = 26 :=
  length_digitChars 26 _

theorem chars_inj {a b : ExecutionId} : a.chars = b.chars ↔ a = b := by
  refine ⟨fun same => ?_, fun same => same ▸ rfl⟩
  have congruent := digitChars_eq_iff.mp same
  have fits (id : ExecutionId) : id.value.toNat < 32 ^ 26 :=
    Nat.lt_trans id.value.isLt (by decide)
  rw [Nat.mod_eq_of_lt (fits a), Nat.mod_eq_of_lt (fits b)] at congruent
  cases a
  cases b
  exact congrArg _ (BitVec.eq_of_toNat_eq congruent)

end ExecutionId

namespace Audit

theorem length_littleEndian64 (value : Int) : (littleEndian64 value).length = 8 := by
  rw [littleEndian64, List.length_reverse, Digest.Sha256.length_bigEndian]

theorem littleEndian64_eq_iff {a b : Int} :
    littleEndian64 a = littleEndian64 b ↔ a % 2 ^ 64 = b % 2 ^ 64 := by
  have width : (Nat.pow 2 64 : Nat) = (2 ^ 64 : Int) := rfl
  rw [littleEndian64, littleEndian64, List.reverse_inj, Digest.Sha256.bigEndian_eq_iff, width]
  omega

section Texts

/-- The bytes are read off from the first to the last. -/
theorem toList_loop (bytes : ByteArray) (i : Nat) (read : List UInt8) :
    ByteArray.toList.loop bytes i read = read.reverse ++ bytes.data.toList.drop i := by
  induction i, read using ByteArray.toList.loop.induct bytes with
  | case1 i read more ih =>
      have within : i < bytes.data.toList.length := by simpa using more
      have next : bytes.get! i = bytes.data.toList[i] := by
        rw [Array.getElem_toList]
        exact getElem!_pos bytes.data i more
      rw [ByteArray.toList.loop, if_pos more, ih, List.drop_eq_getElem_cons within, next]
      simp
  | case2 i read done =>
      have beyond : bytes.data.toList.length ≤ i := by simpa using done
      rw [ByteArray.toList.loop, if_neg done, List.drop_eq_nil_of_le beyond, List.append_nil]

theorem textBytes_eq (text : String) : textBytes text = text.toByteArray.data.toList := by
  rw [textBytes, String.toUTF8, ByteArray.toList, toList_loop]
  simp

theorem textBytes_append (a b : String) : textBytes (a ++ b) = textBytes a ++ textBytes b := by
  simp [textBytes_eq]

theorem textBytes_inj {a b : String} : textBytes a = textBytes b ↔ a = b := by
  rw [textBytes_eq, textBytes_eq, Array.toList_inj, ← ByteArray.ext_iff, String.toByteArray_inj]

def closed (texts : List String) : List Char :=
  texts.flatMap fun text => text.toList ++ ['\x00']

theorem closed_cons (text : String) (texts : List String) :
    closed (text :: texts) = text.toList ++ '\x00' :: closed texts := by
  simp [closed]

theorem textBytes_closed_cons (text : String) (texts : List String) :
    textBytes (.ofList (closed (text :: texts))) =
      closedBytes text ++ textBytes (.ofList (closed texts)) := by
  have split : String.ofList (closed (text :: texts)) =
      text ++ "\x00" ++ .ofList (closed texts) := by
    rw [closed_cons, ← String.toList_inj]
    simp
  have null : textBytes "\x00" = [0] := by
    rw [textBytes_eq]
    rfl
  rw [split, textBytes_append, textBytes_append, null, closedBytes]

theorem count_closed (texts : List String) :
    (closed texts).count '\x00' =
      texts.length + (texts.map fun text => text.toList.count '\x00').sum := by
  induction texts with
  | nil => rfl
  | cons text texts ih =>
      rw [closed_cons, List.count_append, List.count_cons_self, ih, List.length_cons,
        List.map_cons, List.sum_cons]
      omega

/-- Of two lists that are the same the parts before the first occurrence of a value are. -/
theorem before_first_inj {α : Type} {value : α} {as bs cs ds : List α} (clean : value ∉ as)
    (spare : value ∉ bs) (same : as ++ value :: cs = bs ++ value :: ds) : as = bs ∧ cs = ds := by
  induction as generalizing bs with
  | nil =>
      obtain _ | ⟨b, bs⟩ := bs
      · exact ⟨rfl, List.tail_eq_of_cons_eq same⟩
      · obtain ⟨rfl, -⟩ := List.cons.inj same
        simp at spare
  | cons a as ih =>
      obtain _ | ⟨b, bs⟩ := bs
      · obtain ⟨rfl, -⟩ := List.cons.inj same
        simp at clean
      · obtain ⟨rfl, behind⟩ := List.cons.inj same
        obtain ⟨rfl, rest⟩ := ih (fun among => clean (.tail _ among))
          (fun among => spare (.tail _ among)) behind
        exact ⟨rfl, rest⟩

/-- If no text on one side has a null character then those on the other have none either, as many
texts being closed on both sides; so the first null character closes the first text on either. -/
theorem closed_inj {as bs : List String} (clean : ∀ text ∈ as, '\x00' ∉ text.toList)
    (many : as.length = bs.length) (same : closed as = closed bs) : as = bs := by
  have spare : ∀ text ∈ bs, '\x00' ∉ text.toList := by
    have counts := congrArg (List.count '\x00') same
    have none : (as.map fun text => text.toList.count '\x00').sum = 0 := by
      simpa [List.sum_eq_zero_iff_forall_eq_nat, List.count_eq_zero] using clean
    rw [count_closed, count_closed, none, many] at counts
    have none : (bs.map fun text => text.toList.count '\x00').sum = 0 := by omega
    simpa [List.sum_eq_zero_iff_forall_eq_nat, List.count_eq_zero] using none
  induction as generalizing bs with
  | nil => exact (List.length_eq_zero_iff.mp many.symm).symm
  | cons a as ih =>
      obtain _ | ⟨b, bs⟩ := bs
      · cases many
      · rw [closed_cons, closed_cons] at same
        obtain ⟨first, rest⟩ := before_first_inj (clean a (by simp)) (spare b (by simp)) same
        rw [String.toList_inj.mp first,
          ih (fun text among => clean text (by simp [among])) (by simpa using many) rest
            fun text among => spare text (by simp [among])]

end Texts

end Audit

end PhasedUpgrade
