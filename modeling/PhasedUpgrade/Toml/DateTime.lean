import PhasedUpgrade.Time.Rfc3339

/-!
# TOML dates and times

A date, a time of day, or both, with an offset from UTC at most where both are given.
-/

namespace PhasedUpgrade.Toml

open Time (Date padded)

/-- A time of day; the second may be the sixtieth. -/
structure ClockTime where
  hour : Nat
  minute : Nat
  second : Nat
  nanos : Nat
deriving DecidableEq

/-- An offset from UTC, given as the letter Z or in minutes. -/
inductive Offset where
  | zulu
  | minutes (count : Int)
deriving DecidableEq

structure DateTime where
  date : Option Date
  time : Option ClockTime
  offset : Option Offset
deriving DecidableEq

def dropZerosEnd (digits : List Char) : List Char :=
  (digits.reverse.dropWhile (· == '0')).reverse

def dateChars (date : Date) : List Char :=
  padded 4 date.year.toNat ++ '-' :: padded 2 date.month ++ '-' :: padded 2 date.day

def ClockTime.chars (time : ClockTime) : List Char :=
  padded 2 time.hour ++ ':' :: padded 2 time.minute ++ ':' :: padded 2 time.second ++
    if time.nanos = 0 then [] else '.' :: dropZerosEnd (padded 9 time.nanos)

def Offset.chars : Offset → List Char
  | zulu => ['Z']
  | minutes count =>
      (if count < 0 then '-' else '+') :: padded 2 (count.natAbs / 60) ++
        ':' :: padded 2 (count.natAbs % 60)

namespace DateTime

def chars (value : DateTime) : List Char :=
  match value.date, value.time with
  | some date, some time =>
      dateChars date ++ 'T' :: time.chars ++ (value.offset.map Offset.chars).getD []
  | some date, none => dateChars date
  | none, some time => time.chars
  | none, none => []

def text (value : DateTime) : String :=
  .ofList value.chars

end DateTime

end PhasedUpgrade.Toml
