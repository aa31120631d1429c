import PhasedUpgrade.Answers.Error
import PhasedUpgrade.Run.Error

/-!
# Errors as data

An error is shown by the name of its kind and by its message, if the message does not come from the
surroundings.
-/

namespace PhasedUpgrade

def Display.error (kind : String) (message : Option String) : Json :=
  .object (("error", .string kind) ::
    match message with
    | some message => [("message", .string message)]
    | none => [])

def Display.result {ε α : Type} (error : ε → Json) (value : α → Json) : Except ε α → Json
  | .ok a => value a
  | .error e => error e

namespace StoreError

/-- The message, unless part of it was said by somebody else. -/
def ownMessage? (error : StoreError) : Option String :=
  match error with
  | io _ _ | corrupt _ _ => none
  | error => some error.message

def toJson (error : StoreError) : Json :=
  Display.error error.kind error.ownMessage?

end StoreError

def MessageError.toJson (error : MessageError) : Json :=
  Display.error error.kind error.message

def ContractViolation.toJson (violation : ContractViolation) : Json :=
  Display.error violation.kind violation.message

def RegistryError.toJson (error : RegistryError) : Json :=
  Display.error error.kind error.message

def WorkflowError.toJson (error : WorkflowError) : Json :=
  Display.error error.kind error.message

def IllegalTransition.toJson (error : IllegalTransition) : Json :=
  Display.error "IllegalTransition" error.message

def Refusal.toJson (refusal : Refusal) : Json :=
  Display.error refusal.kind refusal.message

def Cycle.toJson (cycle : Cycle) : Json :=
  .object [("error", .string "Cycle"), ("message", .string cycle.message),
    ("phase", .string cycle.phase), ("members", .array (cycle.members.map .string))]

namespace AnswerError

def toJson : AnswerError → Json
  | unreadable path cause => Display.error (unreadable path cause).kind none
  | malformed assignment => Display.error (malformed assignment).kind (malformed assignment).message
  | store cause => cause.toJson

end AnswerError

namespace RunError

def causeJson : RunError → Json
  | refused cause => cause.toJson
  | store cause => cause.toJson
  | cycle cause => cause.toJson
  | registry cause => cause.toJson
  | transition cause => cause.toJson

def toJson (error : RunError) : Json :=
  match error.causeJson with
  | .object fields =>
      .object (fields ++ [("exit_code", .integer error.exitCode),
        ("command_error", .boolean error.isRefusal)])
  | other => other

end RunError

end PhasedUpgrade
