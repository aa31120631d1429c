import PhasedUpgrade.Decimal.FloatText
import PhasedUpgrade.Toml.StringForm
import PhasedUpgrade.Toml.Value

/-!
# TOML texts

Tables get headers, arrays that hold nothing but tables get a header per element, and other arrays
are written on one line. A table shows its lines first and then what gets headers, each in the order
of the keys.
-/

namespace PhasedUpgrade.Toml

namespace Value

def isTable : Value → Bool
  | .table _ => true
  | _ => false

mutual

def inlineChars : Value → List Char
  | .string text => stringChars text.toList
  | .integer value => (toString value).toList
  | .float value =>
      if value.isNaN then ['n', 'a', 'n'] else Decimal.FloatStyle.written.chars value
  | .boolean true => ['t', 'r', 'u', 'e']
  | .boolean false => ['f', 'a', 'l', 's', 'e']
  | .dateTime value => value.chars
  | .array [] => ['[', ']']
  | .array (item :: rest) => '[' :: inlineChars item ++ inlineItems rest
  | .table [] => ['\x7b', '\x7d']
  | .table ((key, value) :: rest) =>
      ['\x7b', ' '] ++ keyChars key ++ [' ', '=', ' '] ++ inlineChars value ++ inlineEntries rest

def inlineItems : List Value → List Char
  | [] => [']']
  | item :: rest => [',', ' '] ++ inlineChars item ++ inlineItems rest

def inlineEntries : List (String × Value) → List Char
  | [] => [' ', '\x7d']
  | (key, value) :: rest =>
      [',', ' '] ++ keyChars key ++ [' ', '=', ' '] ++ inlineChars value ++ inlineEntries rest

end

/-- Whether an entry gets headers of its own instead of a line. -/
def hasHeader : Value → Bool
  | .table _ => true
  | .array [] => false
  | .array items => items.all isTable
  | _ => false

def lineChars (entries : List (String × Value)) : List Char :=
  (entries.filter fun entry => !entry.2.hasHeader).flatMap fun entry =>
    keyChars entry.1 ++ [' ', '=', ' '] ++ entry.2.inlineChars ++ ['\n']

def headerChars (isElement : Bool) (path : List String) : List Char :=
  if isElement then ['[', '['] ++ pathChars path ++ [']', ']', '\n']
  else '[' :: pathChars path ++ [']', '\n']

/-- Whether a table has a header line: a table that only holds other tables has none. -/
def showsHeader (isElement : Bool) (entries : List (String × Value)) : Bool :=
  isElement || entries.isEmpty || entries.any (!·.2.hasHeader)

mutual

/-- The blocks of a value under a path: a header with lines each. -/
def blocks (isElement : Bool) (path : List String) : Value → List (List Char)
  | .table entries =>
      (if showsHeader isElement entries then
        [headerChars isElement path ++ lineChars entries] else []) ++ entryBlocks path entries
  | .array items => if hasHeader (.array items) then itemBlocks path items else []
  | _ => []

def itemBlocks (path : List String) : List Value → List (List Char)
  | [] => []
  | item :: rest => blocks true path item ++ itemBlocks path rest

def entryBlocks (path : List String) : List (String × Value) → List (List Char)
  | [] => []
  | (key, value) :: rest => blocks false (path ++ [key]) value ++ entryBlocks path rest

end

end Value

/-- A document of tables, with a blank line between its blocks. -/
def documentChars (tables : List (String × List (String × Value))) : List Char :=
  [('\n' : Char)].intercalate (tables.flatMap fun table =>
    Value.blocks false [table.1] (.table table.2))

end PhasedUpgrade.Toml
