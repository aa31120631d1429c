import PhasedUpgrade.Json.Typed
import PhasedUpgrade.Message.Catalog

/-!
# Typed models

A model ties a type of values to a message type: its schema, how a value becomes a payload, and how
a payload is read back.
-/

namespace PhasedUpgrade

open Reading (Misfit)

/-- A message type whose payloads are values of `α`. -/
structure Model (α : Type) where
  name : String
  topic : String
  fields : List Field
  encode : α → Json
  decode : Json → Except Misfit α

namespace Model

variable {α : Type}

def schema (model : Model α) : Schema :=
  ⟨model.name, model.topic, model.fields⟩

def draft (model : Model α) (value : α) : Message :=
  .draft model.name model.topic (model.encode value)

def read (model : Model α) (message : Message) : Except MessageError α :=
  if message.typeName = model.name then
    (model.decode message.payload).mapError fun misfit => .undecodable model.name misfit.message
  else
    .error (.unknownType ("expected " ++ model.name ++ ", found " ++ message.typeName))

end Model

end PhasedUpgrade
