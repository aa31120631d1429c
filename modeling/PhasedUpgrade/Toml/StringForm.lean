import PhasedUpgrade.Text.Hexadecimal
import PhasedUpgrade.Toml.Quoted

/-!
# Forms of strings

A text is written in the first form that shows it without escapes: a basic string, a literal one, a
basic one over several lines, or a literal one over several lines. A text that none of them shows
so is a basic string with escapes, over several lines if it has line feeds.
-/

namespace PhasedUpgrade.Toml

def isControl (c : Char) : Bool :=
  c.val ≤ 0x1F || c.val == 0x7F

def needsEscape (c : Char) : Bool :=
  isControl c && c != '\t' && c != '\n'

/-- The escape of a character in a basic string, or the character itself. -/
def escapedChar (c : Char) : List Char :=
  match c with
  | '\x08' => ['\\', 'b']
  | '\t' => ['\\', 't']
  | '\n' => ['\\', 'n']
  | '\x0c' => ['\\', 'f']
  | '\r' => ['\\', 'r']
  | '"' => ['\\', '"']
  | '\\' => ['\\', '\\']
  | c => if isControl c then ['\\', 'u'] ++ (Text.hexChars 4 c.toNat).map Char.toUpper else [c]

/-- A text between the quotes of a basic string over several lines, with `quotes` double quotes
directly before it. Of three double quotes in a row the third gets an escape. -/
def escapedLines (quotes : Nat) : List Char → List Char
  | [] => []
  | '"' :: rest =>
      if quotes = 2 then '\\' :: '"' :: escapedLines 0 rest
      else '"' :: escapedLines (quotes + 1) rest
  | '\n' :: rest => '\n' :: escapedLines 0 rest
  | c :: rest => escapedChar c ++ escapedLines 0 rest

/-- Whether a character stands three times in a row somewhere. -/
def hasTriple (mark : Char) : List Char → Bool
  | [] => false
  | c :: rest => (c :: rest).take 3 == [mark, mark, mark] || hasTriple mark rest

/-- The ways to write a text. -/
inductive StringForm where
  | basic
  | literal
  | basicLines
  | literalLines
deriving DecidableEq

def StringForm.of (chars : List Char) : StringForm :=
  let isRaw := !chars.any needsEscape
  let isSimple := isRaw && !chars.contains '\\'
  if isSimple && !chars.contains '"' && !chars.contains '\n' then .basic
  else if isRaw && !chars.contains '\'' && !chars.contains '\n' then .literal
  else if isSimple && !hasTriple '"' chars then .basicLines
  else if isRaw && !hasTriple '\'' chars then .literalLines
  else if chars.contains '\n' then .basicLines
  else .basic

/-- What is between tripled quotes; a line feed in front does not count. -/
def betweenTriples (quote : Char) (chars content : List Char) : List Char :=
  let triple : List Char := [quote, quote, quote]
  triple ++ (if chars.contains '\n' then '\n' :: content else content) ++ triple

def StringForm.chars (form : StringForm) (chars : List Char) : List Char :=
  match form with
  | .basic => '"' :: chars.flatMap escapedChar ++ ['"']
  | .literal => '\'' :: chars ++ ['\'']
  | .basicLines => betweenTriples '"' chars (escapedLines 0 chars)
  | .literalLines => betweenTriples '\'' chars chars

def stringChars (chars : List Char) : List Char :=
  (StringForm.of chars).chars chars

/-- A key: a bare word, or a basic string, or a literal one if that shows it without escapes. -/
def keyChars (key : String) : List Char :=
  let chars := key.toList
  if !chars.isEmpty && chars.all isBareKeyChar then chars
  else if (chars.contains '"' || chars.contains '\\') &&
      chars.all (fun c => isPlain c && c != '\'') then
    StringForm.literal.chars chars
  else StringForm.basic.chars chars

def pathChars (path : List String) : List Char :=
  [('.' : Char)].intercalate (path.map keyChars)

end PhasedUpgrade.Toml
