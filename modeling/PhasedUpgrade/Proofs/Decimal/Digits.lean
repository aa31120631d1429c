import Mathlib.Algebra.Order.Ring.Int
import Mathlib.Data.List.Basic
import PhasedUpgrade.Decimal.Reading
import PhasedUpgrade.Time.Rfc3339

/-!
# Digits that are written and read

What the digits of a number denote is the number, also with zeros in front. Behind digits the reader
stops at the first character that is none.
-/

namespace PhasedUpgrade.Decimal

theorem isDigit_eq (c : Char) : isDigit c = c.isDigit := by
  simp only [isDigit, Char.isDigit, Char.le_def]

theorem number_append (value : Nat) (digits more : List Char) :
    number value (digits ++ more) = number (number value digits) more := by
  simp [number]

theorem number_toDigits (n : Nat) : number 0 (Nat.toDigits 10 n) = n :=
  Nat.ofDigitChars_ten_toDigits

theorem isDigit_of_mem_toDigits {n : Nat} {c : Char} (mem : c ∈ Nat.toDigits 10 n) :
    isDigit c = true := by
  rw [isDigit_eq]
  exact Nat.isDigit_of_mem_toDigits (by decide) (by decide) mem

theorem number_replicate_zero (count : Nat) : number 0 (List.replicate count '0') = 0 := by
  induction count with
  | zero => rfl
  | succ count ih =>
      rw [List.replicate_succ]
      exact ih

theorem head?_toDigits {n : Nat} (pos : 0 < n) : (Nat.toDigits 10 n).head? ≠ some '0' := by
  induction n using Nat.strongRecOn with
  | ind n ih =>
      by_cases small : n < 10
      · rw [Nat.toDigits_of_lt_base small]
        have each : ∀ digit < 10, 0 < digit → [digit.digitChar].head? ≠ some '0' := by decide
        exact each n small pos
      · rw [Nat.toDigits_of_base_le (by decide) (by omega),
          List.head?_append_of_ne_nil _ Nat.toDigits_ne_nil]
        exact ih (n / 10) (by omega) (by omega)

theorem takeWhile_isDigit {digits : List Char} (all : ∀ c ∈ digits, isDigit c = true)
    {c : Char} (other : isDigit c = false) (rest : List Char) :
    (digits ++ c :: rest).takeWhile isDigit = digits := by
  rw [List.takeWhile_append_of_pos all, List.takeWhile_cons_of_neg (by simp [other]),
    List.append_nil]

/-! ## Numbers of a fixed width -/

section Padded

open Time (padded)

theorem length_padded {width n : Nat} (fits : n < 10 ^ width) (pos : 0 < width) :
    (padded width n).length = width := by
  have short := (Nat.length_toDigits_le_iff (by decide) pos).mpr fits
  simp only [padded, List.length_append, List.length_replicate]
  omega

theorem isDigit_of_mem_padded {width n : Nat} {c : Char} (mem : c ∈ padded width n) :
    isDigit c = true := by
  rcases List.mem_append.mp mem with mem | mem
  · rw [List.eq_of_mem_replicate mem]
    rfl
  · exact isDigit_of_mem_toDigits mem

theorem number_padded (width n : Nat) : number 0 (padded width n) = n := by
  rw [padded, number_append, number_replicate_zero, number_toDigits]

end Padded

end PhasedUpgrade.Decimal
