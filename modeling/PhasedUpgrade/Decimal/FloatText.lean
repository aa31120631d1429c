import PhasedUpgrade.Decimal.Shortest

/-!
# Texts of floats

A `FloatStyle` says where positional notation ends and how a tie between shortest decimals goes.
-/

namespace PhasedUpgrade.Decimal

/-- The choices that turn a float into a text. -/
structure FloatStyle where
  tie : Tie
  /-- The positions of the point, counted from the first digit, that are written out. -/
  positional : Int → Bool

def zeros (count : Nat) : List Char :=
  List.replicate count '0'

/-- Digits with the point after `point` of them, padded with zeros, and `.0` if they are whole. -/
def positionalText (digits : List Char) (point : Int) : List Char :=
  if point ≤ 0 then ['0', '.'] ++ zeros (-point).toNat ++ digits
  else if digits.length ≤ point then digits ++ zeros (point.toNat - digits.length) ++ ['.', '0']
  else digits.take point.toNat ++ ['.'] ++ digits.drop point.toNat

/-- The first digit, the others behind a point, and the exponent. -/
def exponentText (digits : List Char) (point : Int) : List Char :=
  digits.take 1 ++ (if digits.length ≤ 1 then [] else '.' :: digits.drop 1) ++
    ['e'] ++ (toString (point - 1)).toList

def FloatStyle.chars (style : FloatStyle) (value : Float) : List Char :=
  let sign := if value.toBits >>> 63 = 1 then ['-'] else []
  if value.isNaN then ['N', 'a', 'N']
  else if value.isInf then sign ++ ['i', 'n', 'f']
  else
    let decimal := shortest style.tie value
    let digits := Nat.toDigits 10 decimal.coefficient
    let point := digits.length + decimal.exponent
    sign ++ if decimal.coefficient = 0 then ['0', '.', '0']
      else if style.positional point then positionalText digits point
      else exponentText digits point

def FloatStyle.text (style : FloatStyle) (value : Float) : String :=
  .ofList (style.chars value)

/-- Positional from `0.00001` to below `10 ^ 16`, with an exponent outside; ties go to even. -/
def FloatStyle.compact : FloatStyle where
  tie := .toEven
  positional := fun point => -5 < point && point ≤ 16

/-- Positional from `0.0001` to below `10 ^ 16`, with an exponent outside; ties go up. -/
def FloatStyle.displayed : FloatStyle where
  tie := .up
  positional := fun point => -4 < point && point ≤ 16

/-- Positional throughout; ties go up. -/
def FloatStyle.written : FloatStyle where
  tie := .up
  positional := fun _ => true

end PhasedUpgrade.Decimal
