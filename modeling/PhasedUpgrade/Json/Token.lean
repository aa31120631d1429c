import PhasedUpgrade.Json.Numeral
import PhasedUpgrade.Text.Hexadecimal
import PhasedUpgrade.Text.Utf8

/-!
# JSON tokens

A text is scanned character by character. A string that holds half of a surrogate pair, or bytes
that belong to no character, is a token without a text: readers that need its text refuse it, others
pass over it.
-/

namespace PhasedUpgrade.Json

inductive Token where
  | openBrace
  | closeBrace
  | openBracket
  | closeBracket
  | colon
  | comma
  | null
  | boolean (value : Bool)
  | numeral (value : Numeral)
  | string (value : Option String)
deriving DecidableEq

/-- Join the halves of surrogate pairs; none if a half stands alone. -/
def joinSurrogates : List Nat → Option (List Char)
  | [] => some []
  | [unit] => if 0xD800 ≤ unit ∧ unit < 0xE000 then none else some [.ofNat unit]
  | unit :: next :: rest =>
      if 0xD800 ≤ unit ∧ unit < 0xDC00 then
        if 0xDC00 ≤ next ∧ next < 0xE000 then
          (joinSurrogates rest).map
            (.ofNat (0x10000 + (unit - 0xD800) * 0x400 + (next - 0xDC00)) :: ·)
        else none
      else if 0xDC00 ≤ unit ∧ unit < 0xE000 then none
      else (joinSurrogates (next :: rest)).map (.ofNat unit :: ·)

/-- What the scanner is in the middle of; gathered parts are held in reverse. -/
inductive Scan where
  | between
  | text (units : List Nat)
  | escape (units : List Nat)
  /-- A character code, of which `digits` hexadecimal digits are still to come. -/
  | code (units : List Nat) (digits value : Nat)
  | numeral (chars : List Char)
  | word (chars : List Char)

namespace Scan

def isNumeralChar (c : Char) : Bool :=
  Decimal.isDigit c || c == '-' || c == '+' || c == '.' || c == 'e' || c == 'E'

def isWordChar (c : Char) : Bool :=
  'a' ≤ c && c ≤ 'z'

def wordToken? (word : List Char) : Option Token :=
  if word = ['n', 'u', 'l', 'l'] then some .null
  else if word = ['t', 'r', 'u', 'e'] then some (.boolean true)
  else if word = ['f', 'a', 'l', 's', 'e'] then some (.boolean false)
  else none

/-- The character after a backslash, if it names a character by itself. -/
def escaped? : Char → Option Nat
  | '"' => some 0x22
  | '\\' => some 0x5C
  | '/' => some 0x2F
  | 'b' => some 0x08
  | 'f' => some 0x0C
  | 'n' => some 0x0A
  | 'r' => some 0x0D
  | 't' => some 0x09
  | _ => none

/-- Begin with a character that does not continue a token. -/
def start (c : Char) : Option (List Token × Scan) :=
  match c with
  | ' ' | '\t' | '\n' | '\r' => some ([], .between)
  | '\x7b' => some ([.openBrace], .between)
  | '\x7d' => some ([.closeBrace], .between)
  | '[' => some ([.openBracket], .between)
  | ']' => some ([.closeBracket], .between)
  | ':' => some ([.colon], .between)
  | ',' => some ([.comma], .between)
  | '"' => some ([], .text [])
  | c =>
      if c = '-' ∨ Decimal.isDigit c then some ([], .numeral [c])
      else if isWordChar c then some ([], .word [c])
      else none

/-- Take one character in; gives the tokens it completes. -/
def step : Scan → Char → Option (List Token × Scan)
  | .between, c => start c
  | .text units, c =>
      if c = '"' then some ([.string ((joinSurrogates units.reverse).map .ofList)], .between)
      else if c = '\\' then some ([], .escape units)
      else if c.toNat < 0x20 then none
      else some ([], .text (c.toNat :: units))
  | .escape units, c =>
      if c = 'u' then some ([], .code units 4 0)
      else (escaped? c).map fun unit => ([], .text (unit :: units))
  | .code units digits value, c => do
      let value := 16 * value + (← Text.hexValue? c)
      if digits ≤ 1 then some ([], .text (value :: units))
      else some ([], .code units (digits - 1) value)
  | .numeral chars, c =>
      if isNumeralChar c then some ([], .numeral (c :: chars))
      else do
        let token := Token.numeral (← Numeral.ofChars? chars.reverse)
        let (tokens, next) ← start c
        some (token :: tokens, next)
  | .word chars, c =>
      if isWordChar c then some ([], .word (c :: chars))
      else do
        let token ← wordToken? chars.reverse
        let (tokens, next) ← start c
        some (token :: tokens, next)

/-- The token that the end of the text completes, if there may be an end here. -/
def finish : Scan → Option (List Token)
  | .between => some []
  | .numeral chars => (Numeral.ofChars? chars.reverse).map ([.numeral ·])
  | .word chars => (wordToken? chars.reverse).map ([·])
  | .text _ | .escape _ | .code _ _ _ => none

/--
Take in a byte that belongs to no character. A string gets two first halves, which nothing joins.
-/
def stray : Scan → Option Scan
  | .text units => some (.text (0xD800 :: 0xD800 :: units))
  | .between | .escape _ | .code _ _ _ | .numeral _ | .word _ => none

/-- Scan to the end; `none` is a byte that belongs to no character. -/
def runBytes (state : Scan) : List (Option Char) → Option (List Token)
  | [] => state.finish
  | some c :: rest => do
      let (tokens, next) ← state.step c
      return tokens ++ (← next.runBytes rest)
  | none :: rest => do (← state.stray).runBytes rest

def run (state : Scan) (chars : List Char) : Option (List Token) :=
  state.runBytes (chars.map some)

end Scan

def tokens (text : String) : Option (List Token) :=
  Scan.between.run text.toList

def tokensOfBytes (bytes : ByteArray) : Option (List Token) :=
  Scan.between.runBytes (Text.charsFrom bytes 0)

end PhasedUpgrade.Json
