import PhasedUpgrade.Json.Value
import PhasedUpgrade.Text.Hexadecimal
import PhasedUpgrade.Decimal.FloatText

/-!
# JSON texts

Values are written without blanks or with an indentation of two blanks per level, fields in the
order they are listed. Only quotes, backslashes and control characters are escaped.
-/

namespace PhasedUpgrade.Json

def stringChar (c : Char) : List Char :=
  match c with
  | '"' => ['\\', '"']
  | '\\' => ['\\', '\\']
  | '\x08' => ['\\', 'b']
  | '\x0c' => ['\\', 'f']
  | '\n' => ['\\', 'n']
  | '\r' => ['\\', 'r']
  | '\t' => ['\\', 't']
  | c => if c.toNat < 0x20 then ['\\', 'u'] ++ Text.hexChars 4 c.toNat else [c]

def stringChars (text : String) : List Char :=
  '"' :: text.toList.flatMap stringChar ++ ['"']

def scalarChars : Json → List Char
  | .null => ['n', 'u', 'l', 'l']
  | .boolean true => ['t', 'r', 'u', 'e']
  | .boolean false => ['f', 'a', 'l', 's', 'e']
  | .integer value => (toString value).toList
  | .float value => Decimal.FloatStyle.compact.chars value
  | .string value => stringChars value
  | .array _ | .object _ => []

mutual

/-- The text of a value without blanks. -/
def compactChars : Json → List Char
  | .array [] => ['[', ']']
  | .array (item :: rest) => '[' :: compactChars item ++ compactItems rest
  | .object [] => ['\x7b', '\x7d']
  | .object ((name, value) :: rest) =>
      '\x7b' :: stringChars name ++ ':' :: compactChars value ++ compactFields rest
  | value => scalarChars value

def compactItems : List Json → List Char
  | [] => [']']
  | item :: rest => ',' :: compactChars item ++ compactItems rest

def compactFields : List (String × Json) → List Char
  | [] => ['\x7d']
  | (name, value) :: rest =>
      ',' :: stringChars name ++ ':' :: compactChars value ++ compactFields rest

end

def newLine (level : Nat) : List Char :=
  '\n' :: List.replicate (2 * level) ' '

mutual

/-- The text of a value, each item and field on a line of its own. -/
def indentedChars (level : Nat) : Json → List Char
  | .array [] => ['[', ']']
  | .array (item :: rest) =>
      '[' :: newLine (level + 1) ++ indentedChars (level + 1) item ++ indentedItems level rest
  | .object [] => ['\x7b', '\x7d']
  | .object ((name, value) :: rest) =>
      '\x7b' :: newLine (level + 1) ++ stringChars name ++ ':' :: ' ' ::
        indentedChars (level + 1) value ++ indentedFields level rest
  | value => scalarChars value

def indentedItems (level : Nat) : List Json → List Char
  | [] => newLine level ++ [']']
  | item :: rest =>
      ',' :: newLine (level + 1) ++ indentedChars (level + 1) item ++ indentedItems level rest

def indentedFields (level : Nat) : List (String × Json) → List Char
  | [] => newLine level ++ ['\x7d']
  | (name, value) :: rest =>
      ',' :: newLine (level + 1) ++ stringChars name ++ ':' :: ' ' ::
        indentedChars (level + 1) value ++ indentedFields level rest

end

def compact (value : Json) : String :=
  .ofList (compactChars value)

def indented (value : Json) : String :=
  .ofList (indentedChars 0 value)

end PhasedUpgrade.Json
