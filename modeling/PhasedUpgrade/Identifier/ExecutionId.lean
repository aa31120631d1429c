/-!
# Execution identifiers

An execution is named by a number of 128 bits, written as 26 digits to the base 32. The digits are
the ten figures and the letters without I, L, O and U. Two bits more are read than are kept.
-/

namespace PhasedUpgrade

structure ExecutionId where
  value : BitVec 128
deriving DecidableEq

namespace ExecutionId

instance : Inhabited ExecutionId := ⟨⟨0⟩⟩

/-- The digits in the order of their values. -/
def digits : List Char :=
  ['0', '1', '2', '3', '4', '5', '6', '7', '8', '9', 'A', 'B', 'C', 'D', 'E', 'F', 'G', 'H', 'J',
    'K', 'M', 'N', 'P', 'Q', 'R', 'S', 'T', 'V', 'W', 'X', 'Y', 'Z']

/-- The value of a digit; letters may be small. -/
def digitValue? (c : Char) : Option Nat :=
  digits.findIdx? (· == c.toUpper)

/-- The last `width` digits of a number, the highest first. -/
def digitChars : Nat → Nat → List Char
  | 0, _ => []
  | width + 1, value => digitChars width (value / 32) ++ [digits.getD (value % 32) '0']

/-- The number that digits denote, read after a given value. -/
def number? (value : Nat) : List Char → Option Nat
  | [] => some value
  | c :: rest => do number? (32 * value + (← digitValue? c)) rest

def chars (id : ExecutionId) : List Char :=
  digitChars 26 id.value.toNat

def text (id : ExecutionId) : String :=
  .ofList id.chars

/-- Read 26 digits; the two highest of their 130 bits are dropped. -/
def ofText? (text : String) : Option ExecutionId :=
  if text.length = 26 then (number? 0 text.toList).map fun value => ⟨.ofNat 128 value⟩ else none

instance : LT ExecutionId := ⟨fun a b => a.value < b.value⟩

instance (a b : ExecutionId) : Decidable (a < b) :=
  inferInstanceAs (Decidable (a.value < b.value))

end ExecutionId

end PhasedUpgrade
