/-!
# Hexadecimal digits

Lower-case digits are written; digits of either case are read.
-/

namespace PhasedUpgrade.Text

def hexDigit (value : Nat) : Char :=
  if value < 10 then .ofNat (value + 48) else .ofNat (value + 87)

/-- The value of a digit of either case. -/
def hexValue? (c : Char) : Option Nat :=
  if '0' ≤ c ∧ c ≤ '9' then some (c.toNat - 48)
  else if 'a' ≤ c ∧ c ≤ 'f' then some (c.toNat - 87)
  else if 'A' ≤ c ∧ c ≤ 'F' then some (c.toNat - 55)
  else none

/-- The last `width` digits of a number, the highest first. -/
def hexChars (width value : Nat) : List Char :=
  match width with
  | 0 => []
  | width + 1 => hexChars width (value / 16) ++ [hexDigit (value % 16)]

/-- The number that hexadecimal digits denote, read after a given value. -/
def hexNumber? (value : Nat) : List Char → Option Nat
  | [] => some value
  | c :: rest => do hexNumber? (16 * value + (← hexValue? c)) rest

theorem hexValue?_hexDigit {value : Nat} (h : value < 16) :
    hexValue? (hexDigit value) = some value := by
  have : value = 0 ∨ value = 1 ∨ value = 2 ∨ value = 3 ∨ value = 4 ∨ value = 5 ∨ value = 6 ∨
      value = 7 ∨ value = 8 ∨ value = 9 ∨ value = 10 ∨ value = 11 ∨ value = 12 ∨ value = 13 ∨
      value = 14 ∨ value = 15 := by omega
  rcases this with rfl | rfl | rfl | rfl | rfl | rfl | rfl | rfl | rfl | rfl | rfl | rfl | rfl |
    rfl | rfl | rfl <;> decide

theorem length_hexChars (width value : Nat) : (hexChars width value).length = width := by
  induction width generalizing value with
  | zero => rfl
  | succ width ih => simp [hexChars, ih]

end PhasedUpgrade.Text
