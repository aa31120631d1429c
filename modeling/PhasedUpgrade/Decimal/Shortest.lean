/-!
# Shortest decimals

The decimal with the fewest digits among those that round to a given binary float, and the nearest
to it of these. All arithmetic is on natural numbers.
-/

namespace PhasedUpgrade

/-- The decimal `coefficient * 10 ^ exponent`. -/
structure Decimal where
  coefficient : Nat
  exponent : Int
deriving DecidableEq

namespace Decimal

inductive Tie where
  | up
  | toEven
deriving DecidableEq

/--
The positive reals that round to one float, as fractions over a common denominator. The ends belong
to the interval iff `closed`.
-/
structure Rounding where
  low : Nat
  value : Nat
  high : Nat
  denominator : Nat
  closed : Bool

def exponentField (bits : UInt64) : Nat :=
  (bits >>> 52).toNat % 2048

def fractionField (bits : UInt64) : Nat :=
  bits.toNat % Nat.pow 2 52

/--
The reals that round to the magnitude of a finite float. The float below a power of two is half as
far away as the one above it.
-/
def Rounding.ofBits (bits : UInt64) : Rounding :=
  let field := exponentField bits
  let fraction := fractionField bits
  let significand := if field = 0 then fraction else fraction + Nat.pow 2 52
  let exponent : Int := (if field = 0 then 1 else field) - 1077
  let gap := if fraction = 0 ∧ 1 < field then 1 else 2
  let scale := Nat.pow 2 exponent.toNat
  { low := (4 * significand - gap) * scale
    value := 4 * significand * scale
    high := (4 * significand + 2) * scale
    denominator := Nat.pow 2 (-exponent).toNat
    closed := significand % 2 = 0 }

/-- How many digits a natural number has; one for zero. -/
def digitCount (n : Nat) : Nat :=
  (Nat.toDigits 10 n).length

namespace Rounding

/-- The least power of ten above the value, as its exponent. -/
def magnitude (r : Rounding) : Int :=
  if r.denominator ≤ r.value then digitCount (r.value / r.denominator)
  else
    let quotient := (r.denominator + r.value - 1) / r.value
    1 - (if quotient ≤ 1 then 0 else digitCount (quotient - 1) : Nat)

/-- Whether the decimal `coefficient * 10 ^ exponent` rounds to the value. -/
def admits (r : Rounding) (coefficient : Nat) (exponent : Int) : Bool :=
  let point := coefficient * r.denominator * Nat.pow 10 exponent.toNat
  let scale := Nat.pow 10 (-exponent).toNat
  if r.closed then r.low * scale ≤ point && point ≤ r.high * scale
  else r.low * scale < point && point < r.high * scale

/-- The nearest admitted decimal on one decimal grid, if the grid has one. -/
def nearest? (r : Rounding) (tie : Tie) (exponent : Int) : Option Decimal :=
  let value := r.value * Nat.pow 10 (-exponent).toNat
  let unit := r.denominator * Nat.pow 10 exponent.toNat
  let below := value / unit
  let twice := 2 * (value % unit)
  match r.admits below exponent, r.admits (below + 1) exponent with
  | false, false => none
  | true, false => some ⟨below, exponent⟩
  | false, true => some ⟨below + 1, exponent⟩
  | true, true =>
      if twice < unit then some ⟨below, exponent⟩
      else if unit < twice then some ⟨below + 1, exponent⟩
      else if tie = .toEven ∧ below % 2 = 0 then some ⟨below, exponent⟩
      else some ⟨below + 1, exponent⟩

/-- Try the grids of `digits`, `digits + 1`, … digits, `tries` of them. -/
def shortestFrom (r : Rounding) (tie : Tie) (digits : Nat) : Nat → Decimal
  | 0 => ⟨r.value / r.denominator, 0⟩
  | tries + 1 =>
      match r.nearest? tie (r.magnitude - digits) with
      | some decimal => decimal
      | none => r.shortestFrom tie (digits + 1) tries

end Rounding

/-- Divide by ten as long as that leaves no remainder, at most `steps` times. -/
def strip (d : Decimal) : Nat → Decimal
  | 0 => d
  | steps + 1 =>
      if d.coefficient % 10 = 0 ∧ d.coefficient ≠ 0 then
        strip ⟨d.coefficient / 10, d.exponent + 1⟩ steps
      else d

/-- The shortest decimal that reads back as the magnitude of a finite float. -/
def shortest (tie : Tie) (value : Float) : Decimal :=
  let bits := value.toBits
  if bits.toNat % Nat.pow 2 63 = 0 then ⟨0, 0⟩
  else ((Rounding.ofBits bits).shortestFrom tie 1 17).strip 17

end Decimal

end PhasedUpgrade
