import PhasedUpgrade.Toml.Moment
import PhasedUpgrade.Toml.Number
import PhasedUpgrade.Toml.Quoted
import PhasedUpgrade.Toml.Value

/-!
# Values in TOML documents

Strings, atoms (words, numbers and dates), arrays over any number of lines, and inline tables on
one. A key of an inline table may be a path; what a path made, only paths may add to.
-/

namespace PhasedUpgrade.Toml

/-- Whether a character goes on with a word, a number or a date. -/
def isAtomChar (c : Char) : Bool :=
  isBareKeyChar c || c == '+' || c == '.' || c == ':'

def Value.ofAtom? (atom : List Char) : Option Value :=
  if atom = ['t', 'r', 'u', 'e'] then some (.boolean true)
  else if atom = ['f', 'a', 'l', 's', 'e'] then some (.boolean false)
  else
    match DateTime.ofChars? atom, floatOf? atom, integerOf? atom with
    | some value, _, _ => some (.dateTime value)
    | none, some value, _ => some (.float value)
    | none, none, some value => some (.integer value)
    | none, none, none => none

/-- A word, a number or a date; a date may have its time after a blank. -/
def readAtom : Reader Value := fun chars =>
  let atom := chars.takeWhile isAtomChar
  let rest := chars.dropWhile isAtomChar
  let alone := (Value.ofAtom? atom).map fun value => (value, rest)
  match rest with
  | ' ' :: after =>
      match DateTime.ofChars? (atom ++ ' ' :: after.takeWhile isAtomChar) with
      | some value => some (.dateTime value, after.dropWhile isAtomChar)
      | none => alone
  | _ => alone

/-- An inline table in the making; a part that a path made is open for other paths. -/
inductive InlineNode where
  | leaf (value : Value)
  | opened (entries : List (String × InlineNode))

namespace InlineNode

/-- Replace the value of a key, or add it behind the others. -/
def replace {α : Type} (key : String) (value : α) : List (String × α) → List (String × α)
  | [] => [(key, value)]
  | (other, held) :: rest =>
      if other = key then (other, value) :: rest else (other, held) :: replace key value rest

/-- Add a value under a path, unless something stands in the way. -/
def add (entries : List (String × InlineNode)) (value : Value) :
    List String → Option (List (String × InlineNode))
  | [] => none
  | [key] =>
      match entries.lookup key with
      | none => some (entries ++ [(key, .leaf value)])
      | some _ => none
  | key :: path =>
      match entries.lookup key with
      | none => do return entries ++ [(key, .opened (← add [] value path))]
      | some (.opened inner) => do return replace key (.opened (← add inner value path)) entries
      | some (.leaf _) => none

mutual

def toValue : InlineNode → Value
  | .leaf value => value
  | .opened entries => .table (toEntries entries)

def toEntries : List (String × InlineNode) → List (String × Value)
  | [] => []
  | (key, node) :: rest => (key, toValue node) :: toEntries rest

end

end InlineNode

/-- The items of an array after its bracket, each read by `item`; at most `count` of them. -/
def readItems (item : Reader Value) : Nat → Reader (List Value)
  | 0, _ => none
  | count + 1, chars => do
      match ← dropGap chars with
      | ']' :: rest => return ([], rest)
      | chars =>
          let (value, rest) ← item chars
          match ← dropGap rest with
          | ',' :: rest => do
              let (values, rest) ← readItems item count rest
              return (value :: values, rest)
          | ']' :: rest => return ([value], rest)
          | _ => none

/-- The entries of an inline table that is not empty, each value read by `item`. -/
def readEntries (item : Reader Value) (entries : List (String × InlineNode)) :
    Nat → Reader (List (String × InlineNode))
  | 0, _ => none
  | count + 1, chars => do
      let (path, rest) ← readPath chars
      let (value, rest) ← item (dropBlanks (← dropMark? '=' rest))
      let entries ← InlineNode.add entries value path
      match dropBlanks rest with
      | ',' :: rest => readEntries item entries count rest
      | '\x7d' :: rest => return (entries, rest)
      | _ => none

/-- A value that holds arrays and inline tables nested at most `depth` deep. -/
def readValue : Nat → Reader Value
  | 0, '[' :: _ => none
  | 0, '\x7b' :: _ => none
  | depth + 1, '[' :: rest =>
      (readItems (readValue depth) rest.length rest).map fun (items, rest) => (.array items, rest)
  | depth + 1, '\x7b' :: rest =>
      match dropBlanks rest with
      | '\x7d' :: rest => some (.table [], rest)
      | chars =>
          (readEntries (readValue depth) [] rest.length chars).map fun (entries, rest) =>
            (.table (InlineNode.toEntries entries), rest)
  | _, '"' :: rest =>
      (readString ('"' :: rest)).map fun (text, rest) => (.string (.ofList text), rest)
  | _, '\'' :: rest =>
      (readString ('\'' :: rest)).map fun (text, rest) => (.string (.ofList text), rest)
  | _, chars => readAtom chars

end PhasedUpgrade.Toml
