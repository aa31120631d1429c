import PhasedUpgrade.Decimal.Reading

/-!
# JSON numerals

A numeral is kept as it is spelled until its reader is known: a whole number of 64 bits stays
exact, anything else is a float.
-/

namespace PhasedUpgrade.Json

open Decimal

/-- The parts of a number as spelled; all digits are decimal. -/
structure Numeral where
  negative : Bool
  whole : List Char
  fraction : Option (List Char)
  /-- The sign of the exponent, `true` for minus, and its digits. -/
  exponent : Option (Bool × List Char)
deriving DecidableEq

namespace Numeral

/-- Digits without a leading zero, except for a single zero. -/
def splitWhole (chars : List Char) : Option (List Char × List Char) :=
  match spanDigits chars with
  | ([], _) => none
  | ('0' :: _ :: _, _) => none
  | parts => some parts

def splitFraction : List Char → Option (Option (List Char) × List Char)
  | '.' :: rest =>
      match spanDigits rest with
      | ([], _) => none
      | (digits, rest) => some (some digits, rest)
  | rest => some (none, rest)

/-- Without the sign of an exponent, and whether it is a minus. -/
def splitSign : List Char → Bool × List Char
  | '-' :: rest => (true, rest)
  | '+' :: rest => (false, rest)
  | rest => (false, rest)

/-- The rest of a numeral after its fraction: nothing, or an exponent. -/
def exponentOf (chars : List Char) : Option (Option (Bool × List Char)) :=
  match chars with
  | [] => some none
  | mark :: rest =>
      if mark = 'e' ∨ mark = 'E' then
        let (negative, digits) := splitSign rest
        if digits.isEmpty ∨ !digits.all isDigit then none else some (some (negative, digits))
      else none

def ofChars? (chars : List Char) : Option Numeral := do
  let (negative, unsigned) :=
    match chars with
    | '-' :: rest => (true, rest)
    | rest => (false, rest)
  let (whole, rest) ← splitWhole unsigned
  let (fraction, rest) ← splitFraction rest
  return ⟨negative, whole, fraction, ← exponentOf rest⟩

/-- The whole number that is spelled; `-0` counts as a float. -/
def integer? (n : Numeral) : Option Int :=
  if n.fraction.isSome ∨ n.exponent.isSome then none
  else
    let magnitude := number 0 n.whole
    if n.negative then
      if magnitude = 0 ∨ Nat.pow 2 63 < magnitude then none else some (-magnitude)
    else if magnitude < Nat.pow 2 64 then some magnitude
    else none

/-- Gather digits below `2 ^ 64`; the count says how many were left over. -/
def gather (significand : Nat) : List Char → Nat × Nat
  | [] => (significand, 0)
  | digit :: rest =>
      let next := 10 * significand + digitValue digit
      if next < Nat.pow 2 64 then gather next rest else (significand, (digit :: rest).length)

/-- Scale by a power of ten, in steps of at most `10 ^ 308`; none beyond the range of floats. -/
def scale (value : Float) (exponent : Int) : Nat → Option Float
  | 0 => some value
  | steps + 1 =>
      if 0 ≤ exponent then
        if value == 0.0 then some value
        else if 308 < exponent then none
        else
          let scaled := value * Float.ofScientific 1 false exponent.toNat
          if scaled.isInf then none else some scaled
      else if exponent < -308 then
        if value == 0.0 then some value
        else scale (value / Float.ofScientific 1 false 308) (exponent + 308) steps
      else some (value / Float.ofScientific 1 false (-exponent).toNat)

/-- The float that is spelled, unless it is beyond the range of floats. -/
def float? (n : Numeral) : Option Float := do
  let (front, leftFront) := gather 0 n.whole
  let fraction := n.fraction.getD []
  let (significand, left) := gather front fraction
  let spelled : Int :=
    match n.exponent with
    | none => 0
    | some (negative, digits) => if negative then -(number 0 digits) else number 0 digits
  let exponent := spelled + leftFront - (fraction.length - left : Nat)
  let magnitude ← scale (Float.ofNat significand) exponent 8
  return if n.negative then -magnitude else magnitude

/-- A whole number without a sign that fits 64 bits. -/
def natural? (n : Numeral) : Option Nat :=
  if n.negative then none else n.integer?.map Int.toNat

end Numeral

end PhasedUpgrade.Json
