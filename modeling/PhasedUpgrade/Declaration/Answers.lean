import PhasedUpgrade.Answers.Assignment
import PhasedUpgrade.Declaration.Basic
import PhasedUpgrade.Decimal.FloatText

/-!
# Declared answers

TOML values as JSON data: each value under the name of its kind.
-/

namespace PhasedUpgrade

namespace Toml.Value

mutual

/-- A value under the name of its kind. -/
def toJson : Value → Json
  | .string value => .object [("string", .string value)]
  | .integer value => .object [("integer", .integer value)]
  | .float value => .object [("float", .string (Decimal.FloatStyle.displayed.text value))]
  | .boolean value => .object [("boolean", .boolean value)]
  | .dateTime value => .object [("datetime", .string value.text)]
  | .array items => .object [("array", .array (itemsJson items))]
  | .table entries => .object [("table", .object (entriesJson entries))]

def itemsJson : List Value → List Json
  | [] => []
  | item :: rest => toJson item :: itemsJson rest

def entriesJson : List (String × Value) → List (String × Json)
  | [] => []
  | (key, value) :: rest => (key, toJson value) :: entriesJson rest

end

end Toml.Value

namespace Declaration

mutual

def toml : Json → Toml.Value
  | .object [("string", .string value)] => .string value
  | .object [("integer", .integer value)] => .integer value
  | .object [("float", .string value)] =>
      .float (if value = "NaN" then 0.0 / 0.0 else (Toml.floatOf? value.toList).getD 0.0)
  | .object [("boolean", .boolean value)] => .boolean value
  | .object [("datetime", .string value)] => Answers.valueOf value
  | .object [("array", .array items)] => .array (tomlItems items)
  | .object [("table", .object entries)] => .table (tomlEntries entries)
  | _ => .string ""

def tomlItems : List Json → List Toml.Value
  | [] => []
  | item :: rest => toml item :: tomlItems rest

def tomlEntries : List (String × Json) → List (String × Toml.Value)
  | [] => []
  | (key, value) :: rest => (key, toml value) :: tomlEntries rest

end

/-- Answers, each declared by its section, its key and its value. -/
def answers (json : Json) : Answers :=
  (items json "answers").foldl (fun answers entry =>
    match entry with
    | .array [.string heading, .string key, value] => answers.set heading key (toml value)
    | _ => answers) Answers.empty

end Declaration

end PhasedUpgrade
