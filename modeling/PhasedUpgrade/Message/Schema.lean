import PhasedUpgrade.Json.Value
import PhasedUpgrade.Message.Error

/-!
# Schemas

A schema declares the topic of a message type and the fields of its payload. Keys that it does not
declare are allowed.
-/

namespace PhasedUpgrade

inductive FieldKind where
  | string
  | integer
  | float
  | boolean
  | list
  | map
  | any
deriving DecidableEq

namespace FieldKind

def name : FieldKind → String
  | string => "string"
  | integer => "integer"
  | float => "float"
  | boolean => "boolean"
  | list => "list"
  | map => "map"
  | any => "any"

def all : List FieldKind :=
  [string, integer, float, boolean, list, map, any]

/-- Whether a value is of a kind; an integer is a float as well. -/
def accepts : FieldKind → Json → Bool
  | string, .string _ => true
  | integer, .integer _ => true
  | float, .integer _ => true
  | float, .float _ => true
  | boolean, .boolean _ => true
  | list, .array _ => true
  | map, .object _ => true
  | any, _ => true
  | _, _ => false

end FieldKind

def Json.kindName : Json → String
  | .null => "null"
  | .boolean _ => "boolean"
  | .integer _ => "integer"
  | .float _ => "float"
  | .string _ => "string"
  | .array _ => "list"
  | .object _ => "map"

structure Field where
  name : String
  kind : FieldKind
  required : Bool
deriving DecidableEq

/-- The declared form of one message type. -/
structure Schema where
  name : String
  topic : String
  fields : List Field
deriving DecidableEq

namespace Schema

/-- Check the value that a payload has for a declared field; null counts as no value. -/
def checkField (schema : Schema) (field : Field) (value : Option Json) :
    Except MessageError Unit :=
  match value with
  | none | some .null =>
      if field.required then .error (.missingField schema.name field.name) else .ok ()
  | some value =>
      if field.kind.accepts value then .ok ()
      else .error (.wrongKind schema.name field.name field.kind.name value.kindName)

/-- Check the declared fields in order; the first that is not satisfied is reported. -/
def checkFields (schema : Schema) (given : List (String × Json)) :
    List Field → Except MessageError Unit
  | [] => .ok ()
  | field :: rest => do
      schema.checkField field (given.lookup field.name)
      checkFields schema given rest

def validate (schema : Schema) : Json → Except MessageError Unit
  | .object given => schema.checkFields given schema.fields
  | _ => .error (.notAnObject schema.name)

end Schema

end PhasedUpgrade
