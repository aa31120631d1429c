import PhasedUpgrade.Decimal.Reading
import PhasedUpgrade.Text.Split
import PhasedUpgrade.Time.Instant

/-!
# Times as texts

Instants are written after RFC 3339 in UTC, with as many groups of three fraction digits as they
need. The reader takes any offset and is lenient about blanks and missing leading zeros.
-/

namespace PhasedUpgrade.Time

open Decimal (isDigit number)
open Text (dropBlanks isBlank)

def padded (width value : Nat) : List Char :=
  let digits := Nat.toDigits 10 value
  List.replicate (width - digits.length) '0' ++ digits

/-- A year of four digits, or with its sign if it does not fit there. -/
def yearChars (year : Int) : List Char :=
  if 0 ≤ year ∧ year ≤ 9999 then padded 4 year.toNat
  else (if year < 0 then '-' else '+') :: padded 4 year.natAbs

/-- The fraction of a second in 0, 3, 6 or 9 digits, the fewest that lose nothing. -/
def fractionChars (nanos : Nat) : List Char :=
  if nanos = 0 then []
  else if nanos % 1000000 = 0 then '.' :: padded 3 (nanos / 1000000)
  else if nanos % 1000 = 0 then '.' :: padded 6 (nanos / 1000)
  else '.' :: padded 9 nanos

namespace Instant

def chars (instant : Instant) : List Char :=
  let date := Date.ofNumber (instant.seconds / 86400)
  let second := (instant.seconds % 86400).toNat
  let isLeap := 1000000000 ≤ instant.nanos
  yearChars date.year ++ '-' :: padded 2 date.month ++ '-' :: padded 2 date.day ++
    'T' :: padded 2 (second / 3600) ++ ':' :: padded 2 (second / 60 % 60) ++
    ':' :: padded 2 (second % 60 + if isLeap then 1 else 0) ++
    fractionChars (instant.nanos % 1000000000) ++ ['Z']

def text (instant : Instant) : String :=
  .ofList instant.chars

end Instant

/-- One to `most` digits after blanks, as a number. -/
def readDigits (most : Nat) (chars : List Char) : Option (Nat × List Char) :=
  let chars := dropBlanks chars
  let digits := (chars.take most).takeWhile isDigit
  if digits.isEmpty then none else some (number 0 digits, chars.drop digits.length)

/-- A year: four digits at most, or any number of them after a sign. -/
def readYear (chars : List Char) : Option (Int × List Char) :=
  let signed (sign : Int) (rest : List Char) : Option (Int × List Char) :=
    let digits := rest.takeWhile isDigit
    if digits.isEmpty then none else some (sign * number 0 digits, rest.drop digits.length)
  match dropBlanks chars with
  | '-' :: rest => signed (-1) rest
  | '+' :: rest => signed 1 rest
  | rest => (readDigits 4 rest).map fun (year, rest) => (year, rest)

def readMark (mark : Char) (chars : List Char) : Option (List Char) :=
  match dropBlanks chars with
  | c :: rest => if c = mark then some rest else none
  | [] => none

/-- A fraction in nanoseconds, if there is one; digits after the ninth do not count. -/
def readFraction : List Char → Option (Nat × List Char)
  | '.' :: rest =>
      let digits := rest.takeWhile isDigit
      if digits.isEmpty then none
      else
        let counted := digits.take 9
        some (number 0 counted * Nat.pow 10 (9 - counted.length), rest.drop digits.length)
  | rest => some (0, rest)

/-- Hours and minutes after a sign, in seconds. -/
def readOffsetAfter (sign : Int) (chars : List Char) : Option (Int × List Char) :=
  match chars with
  | h1 :: h2 :: rest =>
      if isDigit h1 && isDigit h2 then
        match rest.dropWhile (fun c => c == ':' || isBlank c) with
        | m1 :: m2 :: rest =>
            if isDigit m1 && isDigit m2 && m1 < '6' then
              some (sign * (number 0 [h1, h2] * 3600 + number 0 [m1, m2] * 60), rest)
            else none
        | _ => none
      else none
  | _ => none

/-- The offset from UTC in seconds: the letter Z, the letters UTC, or hours and minutes. -/
def readOffset (chars : List Char) : Option (Int × List Char) :=
  if (chars.take 3).map Char.toUpper = ['U', 'T', 'C'] then some (0, chars.drop 3)
  else
    match chars with
    | 'Z' :: rest | 'z' :: rest => some (0, rest)
    | '+' :: rest => readOffsetAfter 1 rest
    | '-' :: rest | '\u2212' :: rest => readOffsetAfter (-1) rest
    | _ => none

def readTimeMark : List Char → Option (List Char)
  | 'T' :: rest | 't' :: rest | ' ' :: rest => some rest
  | _ => none

/-- The years that instants reach. -/
def yearInRange (year : Int) : Bool :=
  -262143 ≤ year && year ≤ 262142

/-- The instant of a local date and time; a sixtieth second is a leap second. -/
def instantOf (date : Date) (hour minute second nanos : Nat) (offset : Int) : Option Instant :=
  let isLeap := second = 60
  let ofDay := ((hour * 60 + minute) * 60 + (if isLeap then 59 else second) : Nat)
  let seconds := date.number * 86400 + ofDay - offset
  let nanos := if isLeap then nanos + 1000000000 else nanos
  if date.exists ∧ yearInRange date.year ∧ hour < 24 ∧ minute < 60 ∧ second ≤ 60 ∧
      offset.natAbs < 86400 ∧ yearInRange (Date.ofNumber (seconds / 86400)).year then
    if h : nanos < 2000000000 ∧ (1000000000 ≤ nanos → seconds % 60 = 59) then
      some ⟨seconds, nanos, h.1, h.2⟩
    else none
  else none

namespace Instant

def ofChars? (chars : List Char) : Option Instant := do
  let (year, rest) ← readYear chars
  let (month, rest) ← readDigits 2 (← readMark '-' rest)
  let (day, rest) ← readDigits 2 (← readMark '-' rest)
  let (hour, rest) ← readDigits 2 (← readTimeMark rest)
  let (minute, rest) ← readDigits 2 (← readMark ':' rest)
  let (second, rest) ← readDigits 2 (← readMark ':' rest)
  let (nanos, rest) ← readFraction rest
  let (offset, rest) ← readOffset (dropBlanks rest)
  if (dropBlanks rest).isEmpty then instantOf ⟨year, month, day⟩ hour minute second nanos offset
  else none

def ofText? (text : String) : Option Instant :=
  ofChars? text.toList

end Instant

end PhasedUpgrade.Time
