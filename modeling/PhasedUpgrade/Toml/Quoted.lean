import PhasedUpgrade.Text.Hexadecimal
import PhasedUpgrade.Toml.Blank

/-!
# Strings and keys of TOML

Basic strings stand between double quotes and have escapes, literal strings between single quotes
and have none. Either kind may span lines between tripled quotes.

A key is a bare word or a string on one line; a path is a sequence of keys with points between.
-/

namespace PhasedUpgrade.Toml

/-! ## Strings -/

def codeChar? (digits : List Char) : Option Char := do
  let point ← Text.hexNumber? 0 digits
  if point < 0xD800 ∨ 0xE000 ≤ point ∧ point < 0x110000 then some (.ofNat point) else none

def escaped? : Char → Option Char
  | 'b' => some '\x08'
  | 't' => some '\t'
  | 'n' => some '\n'
  | 'f' => some '\x0c'
  | 'r' => some '\r'
  | '"' => some '"'
  | '\\' => some '\\'
  | _ => none

def prepend (c : Char) (read : Option (List Char × List Char)) :
    Option (List Char × List Char) :=
  read.map fun (content, rest) => (c :: content, rest)

/-- The rest of a basic string on one line. -/
def basicRest : Reader (List Char)
  | [] => none
  | '"' :: rest => some ([], rest)
  | '\\' :: 'u' :: a :: b :: c :: d :: rest => do
      prepend (← codeChar? [a, b, c, d]) (basicRest rest)
  | '\\' :: 'U' :: a :: b :: c :: d :: e :: f :: g :: h :: rest => do
      prepend (← codeChar? [a, b, c, d, e, f, g, h]) (basicRest rest)
  | '\\' :: c :: rest => do prepend (← escaped? c) (basicRest rest)
  | c :: rest => if isPlain c && c != '\\' then prepend c (basicRest rest) else none

def literalRest : Reader (List Char)
  | [] => none
  | '\'' :: rest => some ([], rest)
  | c :: rest => if isPlain c then prepend c (literalRest rest) else none

/-- Up to two quotes that belong to a string whose closing quotes have just been read. -/
def trailingQuotes (quote : Char) : List Char → List Char × List Char
  | a :: b :: rest =>
      if a = quote then if b = quote then ([a, b], rest) else ([a], b :: rest)
      else ([], a :: b :: rest)
  | [a] => if a = quote then ([a], []) else ([], [a])
  | [] => ([], [])

def lineEndsHere (chars : List Char) : Bool :=
  (dropNewline? (dropBlanks chars)).isSome

/-- The rest of a basic string over several lines; a skipped gap goes on if `skipping`. -/
def basicLinesRest (skipping : Bool) : Reader (List Char)
  | [] => none
  | '"' :: '"' :: '"' :: rest => some (trailingQuotes '"' rest)
  | '\r' :: '\n' :: rest =>
      if skipping then basicLinesRest true rest else prepend '\n' (basicLinesRest false rest)
  | '\n' :: rest =>
      if skipping then basicLinesRest true rest else prepend '\n' (basicLinesRest false rest)
  | '\\' :: 'u' :: a :: b :: c :: d :: rest => do
      prepend (← codeChar? [a, b, c, d]) (basicLinesRest false rest)
  | '\\' :: 'U' :: a :: b :: c :: d :: e :: f :: g :: h :: rest => do
      prepend (← codeChar? [a, b, c, d, e, f, g, h]) (basicLinesRest false rest)
  | '\\' :: c :: rest =>
      if lineEndsHere (c :: rest) then basicLinesRest true (c :: rest)
      else do prepend (← escaped? c) (basicLinesRest false rest)
  | c :: rest =>
      if skipping && isBlank c then basicLinesRest true rest
      else if isPlain c && c != '\\' then prepend c (basicLinesRest false rest)
      else none

def literalLinesRest : Reader (List Char)
  | [] => none
  | '\'' :: '\'' :: '\'' :: rest => some (trailingQuotes '\'' rest)
  | '\r' :: '\n' :: rest => prepend '\n' (literalLinesRest rest)
  | '\n' :: rest => prepend '\n' (literalLinesRest rest)
  | c :: rest => if isPlain c then prepend c (literalLinesRest rest) else none

/-- Without the line end that may follow tripled opening quotes. -/
def dropFirstNewline (chars : List Char) : List Char :=
  (dropNewline? chars).getD chars

def readString : Reader (List Char)
  | '"' :: '"' :: '"' :: rest => basicLinesRest false (dropFirstNewline rest)
  | '"' :: rest => basicRest rest
  | '\'' :: '\'' :: '\'' :: rest => literalLinesRest (dropFirstNewline rest)
  | '\'' :: rest => literalRest rest
  | _ => none

/-! ## Keys -/

def isBareKeyChar (c : Char) : Bool :=
  ('a' ≤ c && c ≤ 'z') || ('A' ≤ c && c ≤ 'Z') || ('0' ≤ c && c ≤ '9') || c == '_' || c == '-'

def readKey : Reader String
  | '"' :: rest => (basicRest rest).map fun (key, rest) => (.ofList key, rest)
  | '\'' :: rest => (literalRest rest).map fun (key, rest) => (.ofList key, rest)
  | chars =>
      let key := chars.takeWhile isBareKeyChar
      if key.isEmpty then none else some (.ofList key, chars.dropWhile isBareKeyChar)

/-- Keys with points and blanks between them, at most `count` of them. -/
def readKeys : Nat → Reader (List String)
  | 0, _ => none
  | count + 1, chars => do
      let (key, rest) ← readKey (dropBlanks chars)
      match dropBlanks rest with
      | '.' :: rest => do
          let (keys, rest) ← readKeys count rest
          return (key :: keys, rest)
      | rest => return ([key], rest)

/-- How deep paths, arrays and inline tables may be nested. -/
def maxDepth : Nat := 79

def readPath : Reader (List String) :=
  readKeys maxDepth

end PhasedUpgrade.Toml
