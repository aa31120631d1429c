import PhasedUpgrade.Decimal.Reading
import PhasedUpgrade.Text.Hexadecimal
import PhasedUpgrade.Toml.Blank

/-!
# Numbers of TOML

Integers of 64 bits and floats. Underscores may stand between digits.
-/

namespace PhasedUpgrade.Toml

open Decimal (isDigit number)

/-- The digits of a group, without the single underscores between them. -/
def digitsOf? (isDigit : Char → Bool) : List Char → Option (List Char)
  | [] => none
  | [c] => if isDigit c then some [c] else none
  | c :: '_' :: rest => if isDigit c then (digitsOf? isDigit rest).map (c :: ·) else none
  | c :: rest => if isDigit c then (digitsOf? isDigit rest).map (c :: ·) else none

/-- Split a sign off; `true` stands for minus. -/
def splitSign : List Char → Bool × List Char
  | '-' :: rest => (true, rest)
  | '+' :: rest => (false, rest)
  | chars => (false, chars)

/-- Decimal digits that do not begin with a superfluous zero. -/
def wholeDigits? (chars : List Char) : Option (List Char) :=
  match digitsOf? isDigit chars with
  | some ('0' :: _ :: _) => none
  | digits => digits

def radixNumber? (base : Nat) (chars : List Char) : Option Int := do
  let isBaseDigit (c : Char) : Bool :=
    match Text.hexValue? c with
    | some value => value < base
    | none => false
  let digits ← digitsOf? isBaseDigit chars
  let value := digits.foldl (fun value c => base * value + (Text.hexValue? c).getD 0) 0
  if value < Nat.pow 2 63 then some value else none

def integerOf? : List Char → Option Int
  | '0' :: 'x' :: rest => radixNumber? 16 rest
  | '0' :: 'o' :: rest => radixNumber? 8 rest
  | '0' :: 'b' :: rest => radixNumber? 2 rest
  | chars => do
      let (negative, unsigned) := splitSign chars
      let magnitude := number 0 (← wholeDigits? unsigned)
      if negative then if magnitude ≤ Nat.pow 2 63 then some (-magnitude) else none
      else if magnitude < Nat.pow 2 63 then some magnitude
      else none

/-- The exponent at the end of a float; zero if there is none. -/
def exponentOf? : List Char → Option Int
  | [] => some 0
  | mark :: rest =>
      if mark = 'e' ∨ mark = 'E' then do
        let (negative, unsigned) := splitSign rest
        let magnitude := number 0 (← digitsOf? isDigit unsigned)
        return if negative then -magnitude else magnitude
      else none

def inGroup (c : Char) : Bool :=
  isDigit c || c == '_'

def decimalOf? (chars : List Char) : Option Decimal := do
  let whole ← wholeDigits? (chars.takeWhile inGroup)
  match chars.dropWhile inGroup with
  | [] => none
  | '.' :: rest =>
      let fraction ← digitsOf? isDigit (rest.takeWhile inGroup)
      let exponent ← exponentOf? (rest.dropWhile inGroup)
      return ⟨number 0 (whole ++ fraction), exponent - fraction.length⟩
  | rest => return ⟨number 0 whole, ← exponentOf? rest⟩

/-- A float; one that is too great is refused, one that is too small is minus infinity. -/
def floatOf? (chars : List Char) : Option Float := do
  let (negative, unsigned) := splitSign chars
  let sign (value : Float) := if negative then -value else value
  if unsigned = ['i', 'n', 'f'] then some (sign (1.0 / 0.0))
  else if unsigned = ['n', 'a', 'n'] then some (0.0 / 0.0)
  else
    let value := sign (← decimalOf? unsigned).toFloat
    if value.isInf && !negative then none else some value

end PhasedUpgrade.Toml
