import PhasedUpgrade.Actor.Registry
import PhasedUpgrade.Dispatch.Selection
import PhasedUpgrade.Execution.Lifecycle
import PhasedUpgrade.Store.Basic

/-!
# Errors of runs

What can keep a run from coming to an outcome, and the exit codes that tell it to the shell. A
refusal says what the operator asked for and is not given.
-/

namespace PhasedUpgrade

/-- Why a request is turned down. -/
inductive Refusal where
  | nothingToResume
  | unknownExecution (id : String)
  | invalidExecutionId (text : String)
  | alreadyCompleted (id : String)
  | notRetryable (phase : String)
  | fatalStop (phase : String)
  | workflowMismatch (id expected found : String)
  | unknownPhase (name : String)
  | precondition (text : String)
deriving DecidableEq

namespace Refusal

def kind : Refusal → String
  | nothingToResume => "NothingToResume"
  | unknownExecution _ => "UnknownExecution"
  | invalidExecutionId _ => "InvalidExecutionId"
  | alreadyCompleted _ => "AlreadyCompleted"
  | notRetryable _ => "NotRetryable"
  | fatalStop _ => "FatalStop"
  | workflowMismatch _ _ _ => "WorkflowMismatch"
  | unknownPhase _ => "UnknownPhase"
  | precondition _ => "Precondition"

def message : Refusal → String
  | nothingToResume => "no previous run to resume"
  | unknownExecution id => "execution " ++ id ++ " not found"
  | invalidExecutionId text => "invalid execution id '" ++ text ++ "'"
  | alreadyCompleted id =>
      "previous run " ++ id ++ " already completed; start a new run instead"
  | notRetryable phase =>
      "phase '" ++ phase ++ "' does not allow retry; resume is not possible"
  | fatalStop phase =>
      "run was stopped fatally in phase '" ++ phase ++ "'; resume is not possible"
  | workflowMismatch id expected found =>
      "execution " ++ id ++ " belongs to workflow '" ++ found ++ "', not '" ++ expected ++ "'"
  | unknownPhase name => "unknown phase '" ++ name ++ "'"
  | precondition text => text

end Refusal

/-- Why a run has no outcome. -/
inductive RunError where
  | refused (cause : Refusal)
  | store (cause : StoreError)
  | cycle (cause : Cycle)
  | registry (cause : RegistryError)
  | transition (cause : IllegalTransition)
deriving DecidableEq

namespace RunError

def kind : RunError → String
  | refused cause => cause.kind
  | store cause => cause.kind
  | cycle _ => "Cycle"
  | registry cause => cause.kind
  | transition _ => "IllegalTransition"

def message : RunError → String
  | refused cause => cause.message
  | store cause => cause.message
  | cycle cause => cause.message
  | registry cause => cause.message
  | transition cause => cause.message

/-- Whether the operator's request is to blame. -/
def isRefusal : RunError → Bool
  | refused _ => true
  | _ => false

/-- The exit code of a process that ends with the error; 1 is kept for failed upgrades. -/
def exitCode : RunError → Nat
  | refused _ => 2
  | store _ => 3
  | cycle _ | registry _ => 4
  | transition _ => 5

end RunError

end PhasedUpgrade
