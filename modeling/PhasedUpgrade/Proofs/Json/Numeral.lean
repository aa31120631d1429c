import Mathlib.Data.List.TakeWhile
import PhasedUpgrade.Json.Numeral
import PhasedUpgrade.Json.Print
import PhasedUpgrade.Proofs.Decimal.Digits

/-!
# Numerals of whole numbers

A whole number is written as its digits, behind a minus sign if it is negative. What is written is a
numeral, and the numeral denotes the number if 64 bits hold it.
-/

namespace PhasedUpgrade.Json

open Decimal

/-- Whether a whole number has 64 bits, with a sign or without. -/
def FitsWord (value : Int) : Prop :=
  -2 ^ 63 ≤ value ∧ value < 2 ^ 64

instance (value : Int) : Decidable (FitsWord value) :=
  inferInstanceAs (Decidable (_ ∧ _))

namespace Numeral

def ofInt (value : Int) : Numeral where
  negative := value < 0
  whole := Nat.toDigits 10 value.natAbs
  fraction := none
  exponent := none

theorem splitWhole_toDigits (n : Nat) :
    splitWhole (Nat.toDigits 10 n) = some (Nat.toDigits 10 n, []) := by
  have all : ∀ c ∈ Nat.toDigits 10 n, isDigit c = true := fun _ => isDigit_of_mem_toDigits
  have parts : spanDigits (Nat.toDigits 10 n) = (Nat.toDigits 10 n, []) := by
    simp only [spanDigits, Prod.mk.injEq]
    exact ⟨List.takeWhile_eq_self_iff.mpr all, List.dropWhile_eq_nil_iff.mpr all⟩
  unfold splitWhole
  rw [parts]
  by_cases zero : n = 0
  · subst zero
    rfl
  · have first := head?_toDigits (Nat.pos_of_ne_zero zero)
    cases digits : Nat.toDigits 10 n with
    | nil => exact absurd digits Nat.toDigits_ne_nil
    | cons c rest =>
        rw [digits] at first
        have nonzero : c ≠ '0' := by simpa using first
        simp [nonzero]

theorem toList_toString (value : Int) :
    (toString value).toList =
      if value < 0 then '-' :: Nat.toDigits 10 value.natAbs
      else Nat.toDigits 10 value.natAbs := by
  rw [show toString value = value.repr from rfl, Int.repr_eq_if]
  by_cases negative : value < 0
  · have magnitude : (-value).toNat = value.natAbs := by omega
    rw [if_neg (by omega), if_pos negative, Nat.repr_eq_ofList_toDigits, magnitude]
    simp
  · have magnitude : value.toNat = value.natAbs := by omega
    rw [if_pos (by omega), if_neg negative, Nat.repr_eq_ofList_toDigits, magnitude]
    simp

theorem ofChars?_minus {digits whole : List Char} (h : splitWhole digits = some (whole, [])) :
    ofChars? ('-' :: digits) = some ⟨true, whole, none, none⟩ := by
  simp [ofChars?, h, splitFraction, exponentOf]

theorem ofChars?_of_whole {digits whole : List Char} (unsigned : digits.head? ≠ some '-')
    (h : splitWhole digits = some (whole, [])) :
    ofChars? digits = some ⟨false, whole, none, none⟩ := by
  cases digits with
  | nil => simp [splitWhole, spanDigits] at h
  | cons c rest =>
      have other : c ≠ '-' := by simpa using unsigned
      simp [ofChars?, other, h, splitFraction, exponentOf]

theorem ofChars?_toString (value : Int) :
    ofChars? (toString value).toList = some (ofInt value) := by
  have whole := splitWhole_toDigits value.natAbs
  rw [toList_toString, ofInt]
  by_cases negative : value < 0
  · rw [if_pos negative, decide_eq_true negative]
    exact ofChars?_minus whole
  · rw [if_neg negative, decide_eq_false negative]
    apply ofChars?_of_whole _ whole
    intro first
    have digit := isDigit_of_mem_toDigits (List.mem_of_head? first)
    exact absurd digit (by decide)

theorem integer?_ofInt {value : Int} (fits : FitsWord value) :
    (ofInt value).integer? = some value := by
  obtain ⟨least, most⟩ := fits
  have width : Nat.pow 2 63 = 2 ^ 63 ∧ Nat.pow 2 64 = 2 ^ 64 := ⟨rfl, rfl⟩
  simp only [integer?, ofInt, number_toDigits, Option.isSome_none, decide_eq_true_eq]
  rw [width.1, width.2, if_neg (by simp)]
  by_cases negative : value < 0
  · rw [if_pos negative, if_neg (by omega)]
    exact congrArg some (by omega)
  · rw [if_neg negative, if_pos (by omega)]
    exact congrArg some (by omega)

theorem natural?_ofInt {n : Nat} (fits : n < 2 ^ 64) :
    (ofInt n).natural? = some n := by
  have whole : FitsWord n := ⟨by omega, by omega⟩
  have unsigned : (ofInt n).negative = false := by simp [ofInt]
  rw [natural?, unsigned, integer?_ofInt whole]
  rfl

end Numeral

end PhasedUpgrade.Json
