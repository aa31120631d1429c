import PhasedUpgrade.Decimal.Shortest

/-!
# Reading decimals

Digits and decimal fractions as numbers.
-/

namespace PhasedUpgrade.Decimal

/-- Whether a character is one of the ten ASCII digits. -/
def isDigit (c : Char) : Bool :=
  '0' ≤ c && c ≤ '9'

/-- The value of a digit; digits alone are given to it. -/
def digitValue (c : Char) : Nat :=
  c.toNat - 48

/-- The number that decimal digits denote, read after a given value. -/
def number (value : Nat) (digits : List Char) : Nat :=
  digits.foldl (fun value digit => 10 * value + digitValue digit) value

def spanDigits (chars : List Char) : List Char × List Char :=
  (chars.takeWhile isDigit, chars.dropWhile isDigit)

/-- The float nearest to a decimal, infinite if it is beyond the range of floats. -/
def toFloat (d : Decimal) : Float :=
  let magnitude := digitCount d.coefficient + d.exponent
  if d.coefficient = 0 ∨ magnitude < -400 then 0.0
  else if 400 < magnitude then 1.0 / 0.0
  else Float.ofScientific d.coefficient (d.exponent < 0) d.exponent.natAbs

end PhasedUpgrade.Decimal
