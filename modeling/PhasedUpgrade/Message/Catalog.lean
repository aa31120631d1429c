import PhasedUpgrade.Message.Basic
import PhasedUpgrade.Message.Schema

/-!
# Catalogs of schemas

A catalog holds one schema per message type. A schema that is there already may be registered
again, another one under its name may not.
-/

namespace PhasedUpgrade

/-- Schemas by the name of their message type. -/
structure Catalog where
  schemas : NameMap Schema
deriving DecidableEq

namespace Catalog

def empty : Catalog := ⟨∅⟩

instance : Inhabited Catalog := ⟨empty⟩

def get? (catalog : Catalog) (typeName : String) : Option Schema :=
  catalog.schemas.get? typeName

def contains (catalog : Catalog) (typeName : String) : Bool :=
  catalog.schemas.contains typeName

def names (catalog : Catalog) : List String :=
  catalog.schemas.keys

def size (catalog : Catalog) : Nat :=
  catalog.schemas.size

def register (catalog : Catalog) (schema : Schema) : Except MessageError Catalog :=
  match catalog.get? schema.name with
  | none => .ok ⟨catalog.schemas.insert schema.name schema⟩
  | some known =>
      if known = schema then .ok catalog else .error (.conflictingSchema schema.name)

def registerAll (catalog : Catalog) (schemas : List Schema) : Except MessageError Catalog :=
  schemas.foldlM register catalog

/-- Check the type, then the topic, then the payload of a message. -/
def validate (catalog : Catalog) (message : Message) : Except MessageError Unit :=
  match catalog.get? message.typeName with
  | none => .error (.unknownType message.typeName)
  | some schema =>
      if schema.topic = message.topic then schema.validate message.payload
      else .error (.topicMismatch schema.name schema.topic message.topic)

end Catalog

end PhasedUpgrade
