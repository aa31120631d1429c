import PhasedUpgrade.Actor.Stop
import PhasedUpgrade.Answers.Error
import PhasedUpgrade.Declaration.Basic
import PhasedUpgrade.Run.Error
import PhasedUpgrade.Workflow.Basic

/-!
# Declared errors

Errors as JSON data: each by the name of its kind, its variant, and by its arguments.
-/

namespace PhasedUpgrade.Declaration

def messageError (json : Json) : MessageError :=
  match text json "variant", texts json "args" with
  | "UnknownType", [a] => .unknownType a
  | "ConflictingSchema", [a] => .conflictingSchema a
  | "NotAnObject", [a] => .notAnObject a
  | "MissingField", [a, b] => .missingField a b
  | "WrongKind", [a, b, c, d] => .wrongKind a b c d
  | "TopicMismatch", [a, b, c] => .topicMismatch a b c
  | _, args => .undecodable (args.getD 0 "") (args.getD 1 "")

def violation (json : Json) : ContractViolation :=
  match text json "variant", texts json "args" with
  | "UndeclaredProduce", [a, b] => .undeclaredProduce a b
  | "UndeclaredConsume", [a, b] => .undeclaredConsume a b
  | _, args => .invalidMessage (args.headD "") (messageError (value json "source"))

def actorResult : Json → ActorResult
  | .object [("skipped", .string reason)] => .skipped reason
  | .object [("fatal", .array [.string reason, details])] => .fatal reason (textOf? details)
  | .object [("violation", cause)] => .violation (violation cause)
  | .object [("failed", .string error)] => .failed error
  | _ => .completed

def storeError (json : Json) : StoreError :=
  match text json "variant", texts json "args" with
  | "Io", [a, b] => .io a b
  | "Corrupt", [a, b] => .corrupt a b
  | "Encode", a :: _ => .encode "journal" a
  | "Inconsistent", a :: _ => .inconsistent a
  | _, args => .unavailable (args.headD "")

def refusal (json : Json) : Refusal :=
  match text json "variant", texts json "args" with
  | "UnknownExecution", a :: _ => .unknownExecution a
  | "InvalidExecutionId", a :: _ => .invalidExecutionId a
  | "AlreadyCompleted", a :: _ => .alreadyCompleted a
  | "NotRetryable", a :: _ => .notRetryable a
  | "FatalStop", a :: _ => .fatalStop a
  | "WorkflowMismatch", a :: b :: c :: _ => .workflowMismatch a b c
  | "UnknownPhase", a :: _ => .unknownPhase a
  | "Precondition", a :: _ => .precondition a
  | _, _ => .nothingToResume

def registryError (json : Json) : RegistryError :=
  match text json "variant", texts json "args" with
  | "DuplicateActor", a :: _ => .duplicateActor a
  | "UnknownModel", a :: b :: _ => .unknownModel a b
  | _, _ => .emptyName

def workflowError (json : Json) : WorkflowError :=
  match text json "variant", (texts json "args").headD "" with
  | "Empty", name => .empty name
  | _, name => .duplicatePhase name

def answerError (json : Json) : AnswerError :=
  match text json "variant", texts json "args" with
  | "Parse", [a, b] => .unreadable a b
  | "InvalidAssignment", a :: _ => .malformed a
  | _, args => .store (.unavailable (args.headD ""))

def stop (json : Json) : Stop :=
  let args := texts json "args"
  let stop : Stop :=
    match text json "variant" with
    | "Recoverable" => .recoverable (args.headD "")
    | "Fatal" => .fatal (args.headD "") none
    | "Contract" => .contract (violation (value json "violation"))
    | _ => .unexpected args
  ((text? json "details").map stop.withDetails).getD stop

/-- The error that a run may end with, if the type of the declared one is among these. -/
def runError? (json : Json) : Option RunError :=
  let args := texts json "args"
  match text json "type" with
  | "Command" => some (.refused (refusal json))
  | "Persistence" => some (.store (storeError json))
  | "Dispatch" => some (.cycle ⟨args.headD "", args.drop 1⟩)
  | "Registry" => some (.registry (registryError json))
  | "StateMachine" => some (.transition ⟨args.getD 0 "", args.getD 1 ""⟩)
  | _ => none

end PhasedUpgrade.Declaration
