import PhasedUpgrade.Decimal.FloatText
import PhasedUpgrade.Json.Value
import PhasedUpgrade.Reading.Misfit

/-!
# Typed values from JSON

Readers turn a JSON value into a typed one or say why it does not fit. A record may be given as an
object or as the sequence of its fields. Of several faults in an object, the one under the least
name is reported, and a missing field only if all given ones fit.
-/

namespace PhasedUpgrade.Json

open Reading

def found : Json → Found
  | .null => .null
  | .boolean value => .boolean value
  | .integer value => .integer value
  | .float value => .float (Decimal.FloatStyle.compact.text value)
  | .string value => .string value
  | .array _ => .sequence
  | .object _ => .map

def readString : Json → Except Misfit String
  | .string value => .ok value
  | other => .error (.wrongType other.found .string)

def readBoolean : Json → Except Misfit Bool
  | .boolean value => .ok value
  | other => .error (.wrongType other.found .boolean)

/-- A sequence, item by item; the first item that does not fit is reported. -/
def readList {α : Type} (item : Json → Except Misfit α) : Json → Except Misfit (List α)
  | .array items => items.mapM item
  | other => .error (.wrongType other.found .sequence)

def readOptional {α : Type} (value : Json → Except Misfit α) : Json → Except Misfit (Option α)
  | .null => .ok none
  | other => (value other).map some

/-- One of several named choices, given by its name or as a map from its name to null. -/
def readChoice {α : Type} (choices : List (String × α)) : Json → Except Misfit α
  | .string name => named name
  | .object [(name, value)] => do
      let choice ← named name
      if value matches .null then .ok choice else .error (.wrongType value.found .unit)
  | .object _ => .error .notOneKey
  | other => .error (.wrongType other.found .choice)
where
  named (name : String) : Except Misfit α :=
    match choices.lookup name with
    | some choice => .ok choice
    | none => .error (.unknownVariant name (choices.map Prod.fst))

inductive Fault where
  | misfit (name : String) (cause : Misfit)
  | missing (name : String)

/-- Reads from the fields of a record and notes the faults of all of them. -/
def Fields (α : Type) : Type :=
  (String → Option Json) → Except (List Fault) α

namespace Fields

variable {α β : Type}

instance : Functor Fields where
  map f fields given := (fields given).map f

instance : Seq Fields where
  seq first second given :=
    match first given, second () given with
    | .ok f, .ok a => .ok (f a)
    | .ok _, .error faults => .error faults
    | .error faults, .ok _ => .error faults
    | .error faults, .error more => .error (faults ++ more)

def required (name : String) (value : Json → Except Misfit α) : Fields α := fun given =>
  match given name with
  | none => .error [.missing name]
  | some json =>
      match value json with
      | .ok a => .ok a
      | .error cause => .error [.misfit name cause]

def optional (name : String) (value : Json → Except Misfit α) : Fields (Option α) := fun given =>
  match given name with
  | none => .ok none
  | some json =>
      match readOptional value json with
      | .ok a => .ok a
      | .error cause => .error [.misfit name cause]

/-- The misfit under the least name, of several the first. -/
def leastMisfit? : List Fault → Option (String × Misfit)
  | [] => none
  | .missing _ :: rest => leastMisfit? rest
  | .misfit name cause :: rest =>
      match leastMisfit? rest with
      | some (other, found) => if other < name then some (other, found) else some (name, cause)
      | none => some (name, cause)

/-- The first misfit in the order of declaration. -/
def firstMisfit? : List Fault → Option Misfit
  | [] => none
  | .missing _ :: rest => firstMisfit? rest
  | .misfit _ cause :: _ => some cause

def objectMisfit (faults : List Fault) : Misfit :=
  match leastMisfit? faults with
  | some (_, cause) => cause
  | none => .missingField ((faults.head?.map fun
      | .missing name => name
      | .misfit name _ => name).getD "")

def sequenceMisfit (record : String) (size count : Nat) (faults : List Fault) : Misfit :=
  (firstMisfit? faults).getD (.tooFew count record size)

/-- A record from an object or from the sequence of its fields. -/
def read (record : String) (names : List String) (fields : Fields α) : Json → Except Misfit α
  | .object given => (fields fun name => given.lookup name).mapError objectMisfit
  | .array items => do
      let value ← (fields fun name => (names.zip items).lookup name).mapError
        (sequenceMisfit record names.length items.length)
      if names.length < items.length then .error (.tooMany items.length) else .ok value
  | other => .error (.wrongType other.found (.record record))

end Fields

end PhasedUpgrade.Json
