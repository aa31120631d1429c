import PhasedUpgrade.Json.Value

/-!
# Declarations

Workflows, models and actors may be declared as JSON data. What a declaration leaves out is empty,
false or zero.
-/

namespace PhasedUpgrade.Declaration

/-- The value declared under a name; null if there is none. -/
def value (json : Json) (name : String) : Json :=
  (json.field? name).getD .null

def textOf? : Json → Option String
  | .string text => some text
  | _ => none

def textOf (json : Json) : String :=
  (textOf? json).getD ""

def itemsOf : Json → List Json
  | .array items => items
  | _ => []

def numberOf : Json → Nat
  | .integer value => value.toNat
  | _ => 0

def text? (json : Json) (name : String) : Option String :=
  textOf? (value json name)

def text (json : Json) (name : String) : String :=
  textOf (value json name)

def flag (json : Json) (name : String) : Bool :=
  match value json name with
  | .boolean true => true
  | _ => false

def number (json : Json) (name : String) : Nat :=
  numberOf (value json name)

def items (json : Json) (name : String) : List Json :=
  itemsOf (value json name)

def texts (json : Json) (name : String) : List String :=
  (items json name).map textOf

def pairs (json : Json) (name : String) : List (String × String) :=
  (items json name).map fun pair =>
    (textOf ((itemsOf pair).getD 0 .null), textOf ((itemsOf pair).getD 1 .null))

end PhasedUpgrade.Declaration
