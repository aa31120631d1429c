import PhasedUpgrade.Decimal.Reading
import PhasedUpgrade.Toml.Blank
import PhasedUpgrade.Toml.DateTime

/-!
# Dates and times of TOML

The spellings of dates, times of day and offsets.
-/

namespace PhasedUpgrade.Toml

open Decimal (isDigit number)
open Time (Date)

/-- A number of exactly so many digits. -/
def fixedNumber (width : Nat) : Reader Nat := fun chars =>
  let digits := chars.take width
  if digits.length = width ∧ digits.all isDigit then some (number 0 digits, chars.drop width)
  else none

def dropMark? (mark : Char) : List Char → Option (List Char)
  | c :: rest => if c = mark then some rest else none
  | [] => none

def readDate : Reader Date := fun chars => do
  let (year, rest) ← fixedNumber 4 chars
  let (month, rest) ← fixedNumber 2 (← dropMark? '-' rest)
  let (day, rest) ← fixedNumber 2 (← dropMark? '-' rest)
  let date : Date := ⟨year, month, day⟩
  if date.exists then some (date, rest) else none

/-- A fraction of a second in nanoseconds; digits after the ninth do not count. -/
def readSubsecond : Reader Nat
  | '.' :: rest =>
      let digits := rest.takeWhile isDigit
      if digits.isEmpty then some (0, '.' :: rest)
      else
        let counted := digits.take 9
        some (number 0 counted * Nat.pow 10 (9 - counted.length), rest.dropWhile isDigit)
  | rest => some (0, rest)

def readClockTime : Reader ClockTime := fun chars => do
  let (hour, rest) ← fixedNumber 2 chars
  let (minute, rest) ← fixedNumber 2 (← dropMark? ':' rest)
  let (second, rest) ← fixedNumber 2 (← dropMark? ':' rest)
  let (nanos, rest) ← readSubsecond rest
  if hour < 24 ∧ minute < 60 ∧ second ≤ 60 then some (⟨hour, minute, second, nanos⟩, rest)
  else none

/-- Hours and minutes of an offset with the given sign. -/
def offsetOf? (sign : Int) (chars : List Char) : Option Offset := do
  let (hour, rest) ← fixedNumber 2 chars
  let (minute, rest) ← fixedNumber 2 (← dropMark? ':' rest)
  if hour < 24 ∧ minute < 60 ∧ rest.isEmpty then some (.minutes (sign * (hour * 60 + minute)))
  else none

/-- A time of day, perhaps with an offset, that is all there is. -/
def timeOf? (chars : List Char) : Option (ClockTime × Option Offset) := do
  let (time, rest) ← readClockTime chars
  match rest with
  | [] => some (time, none)
  | ['Z'] | ['z'] => some (time, some .zulu)
  | '+' :: rest => return (time, some (← offsetOf? 1 rest))
  | '-' :: rest => return (time, some (← offsetOf? (-1) rest))
  | _ => none

/-- Whether a character may stand between a date and a time. -/
def isSeparator (c : Char) : Bool :=
  c == 'T' || c == 't' || c == ' '

/-- A date, a time of day, or both with a separator between them. -/
def DateTime.ofChars? (chars : List Char) : Option DateTime :=
  match readDate chars with
  | some (date, []) => some ⟨some date, none, none⟩
  | some (date, mark :: rest) =>
      if isSeparator mark then
        (timeOf? rest).map fun (time, offset) => ⟨some date, some time, offset⟩
      else none
  | none =>
      match readClockTime chars with
      | some (time, []) => some ⟨none, some time, none⟩
      | _ => none

def DateTime.ofText? (text : String) : Option DateTime :=
  DateTime.ofChars? text.toList

end PhasedUpgrade.Toml
