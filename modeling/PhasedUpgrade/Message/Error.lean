/-!
# Faults of messages

Why a message or a schema is refused.
-/

namespace PhasedUpgrade

inductive MessageError where
  | unknownType (name : String)
  | conflictingSchema (name : String)
  | notAnObject (model : String)
  | missingField (model field : String)
  | wrongKind (model field expected actual : String)
  | topicMismatch (model expected actual : String)
  | undecodable (model cause : String)
deriving DecidableEq

namespace MessageError

def kind : MessageError → String
  | unknownType _ => "UnknownType"
  | conflictingSchema _ => "ConflictingSchema"
  | notAnObject _ => "NotAnObject"
  | missingField _ _ => "MissingField"
  | wrongKind _ _ _ _ => "WrongKind"
  | topicMismatch _ _ _ => "TopicMismatch"
  | undecodable _ _ => "Serialization"

def message : MessageError → String
  | unknownType name => "unknown message type: " ++ name
  | conflictingSchema name => "conflicting schema for message type: " ++ name
  | notAnObject model => "payload of " ++ model ++ " must be an object"
  | missingField model field => model ++ ": missing required field '" ++ field ++ "'"
  | wrongKind model field expected actual =>
      model ++ ": field '" ++ field ++ "' expected " ++ expected ++ ", got " ++ actual
  | topicMismatch model expected actual =>
      model ++ ": topic '" ++ actual ++ "' does not match registered topic '" ++ expected ++ "'"
  | undecodable model cause => model ++ ": serialization failed: " ++ cause

end MessageError

end PhasedUpgrade
