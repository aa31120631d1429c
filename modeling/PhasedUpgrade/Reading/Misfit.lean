import PhasedUpgrade.Text.Quoted

/-!
# Misfits

Why a value is not of the form that its reader asks for, and how that is said.
-/

namespace PhasedUpgrade.Reading

inductive Found where
  | null
  | boolean (value : Bool)
  | integer (value : Int)
  | float (text : String)
  | string (value : String)
  | sequence
  | map
deriving DecidableEq

inductive Expected where
  | string
  | boolean
  | sequence
  | map
  | path
  | choice
  | unit
  | record (name : String)
deriving DecidableEq

/-- A value that does not fit its reader. -/
inductive Misfit where
  | wrongType (found : Found) (expected : Expected)
  /-- A sequence of `count` items for a record of `size` fields, with too few of them. -/
  | tooFew (count : Nat) (record : String) (size : Nat)
  | tooMany (count : Nat)
  /-- A choice given as a map that has not exactly one key. -/
  | notOneKey
  | unknownVariant (name : String) (known : List String)
  | unknownField (name : String) (known : List String)
  | missingField (name : String)
deriving DecidableEq

namespace Found

def text : Found → String
  | null => "null"
  | boolean true => "boolean `true`"
  | boolean false => "boolean `false`"
  | integer value => "integer `" ++ toString value ++ "`"
  | float text => "floating point `" ++ text ++ "`"
  | string value => "string " ++ Text.quote value
  | sequence => "sequence"
  | map => "map"

end Found

namespace Expected

def text : Expected → String
  | string => "a string"
  | boolean => "a boolean"
  | sequence => "a sequence"
  | map => "a map"
  | path => "path string"
  | choice => "string or map"
  | unit => "unit"
  | record name => "struct " ++ name

end Expected

namespace Misfit

def nameText (name : String) : String :=
  "`" ++ name ++ "`"

def choicesText : List String → String
  | [] => "there are no choices"
  | [only] => "expected " ++ nameText only
  | [one, other] => "expected " ++ nameText one ++ " or " ++ nameText other
  | names => "expected one of " ++ ", ".intercalate (names.map nameText)

def message : Misfit → String
  | wrongType found expected => "invalid type: " ++ found.text ++ ", expected " ++ expected.text
  | tooFew count record size =>
      "invalid length " ++ toString count ++ ", expected struct " ++ record ++ " with " ++
        toString size ++ (if size = 1 then " element" else " elements")
  | tooMany count =>
      "invalid length " ++ toString count ++ ", expected fewer elements in array"
  | notOneKey => "invalid value: map, expected map with a single key"
  | unknownVariant name known => "unknown variant " ++ nameText name ++ ", " ++ choicesText known
  | unknownField name known => "unknown field " ++ nameText name ++ ", " ++ choicesText known
  | missingField name => "missing field " ++ nameText name

end Misfit

end PhasedUpgrade.Reading
