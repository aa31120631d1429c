import PhasedUpgrade.Execution.Configuration
import PhasedUpgrade.Execution.Lifecycle
import PhasedUpgrade.Identifier.ExecutionId
import PhasedUpgrade.Time.Instant

/-!
# Executions

The record of one execution of a workflow, from its start over any number of reboots to its end.
-/

namespace PhasedUpgrade

open Time (Instant)

/-- What an execution is for: checking only, or upgrading. -/
inductive ExecutionKind where
  | preupgrade
  | upgrade
deriving DecidableEq, Inhabited

namespace ExecutionKind

def name : ExecutionKind → String
  | preupgrade => "preupgrade"
  | upgrade => "upgrade"

def choices : List (String × ExecutionKind) :=
  [(preupgrade.name, preupgrade), (upgrade.name, upgrade)]

end ExecutionKind

/-- The state of an execution that survives reboots. -/
structure Execution where
  id : ExecutionId
  kind : ExecutionKind
  workflow : String
  configuration : Configuration
  state : ExecutionState
  lastCompletedPhase : Option String
  failedPhase : Option String
  failure : Bool
  fatalStop : Bool
  createdAt : Instant
  updatedAt : Instant
deriving DecidableEq

namespace Execution

/-- An execution that has not started yet. -/
def create (id : ExecutionId) (kind : ExecutionKind) (workflow : String)
    (configuration : Configuration) (time : Instant) : Execution where
  id := id
  kind := kind
  workflow := workflow
  configuration := configuration
  state := .notStarted
  lastCompletedPhase := none
  failedPhase := none
  failure := false
  fatalStop := false
  createdAt := time
  updatedAt := time

/-- Change the state, if that is allowed. -/
def transition (execution : Execution) (state : ExecutionState) (time : Instant) :
    Except IllegalTransition Execution := do
  return { execution with state := ← execution.state.change state, updatedAt := time }

def commitPhase (execution : Execution) (phase : String) (time : Instant) : Execution :=
  { execution with lastCompletedPhase := some phase, failedPhase := none, updatedAt := time }

/-- Note that a phase has failed, and whether that rules a retry out. -/
def failPhase (execution : Execution) (phase : String) (fatal : Bool) (time : Instant) :
    Execution :=
  { execution with failedPhase := some phase, failure := true, fatalStop := fatal,
                   updatedAt := time }

def clearFailure (execution : Execution) : Execution :=
  { execution with failedPhase := none, failure := false, fatalStop := false }

/-- Whether an execution was created after another; of two of one moment the greater name counts. -/
def isNewer (a b : Execution) : Bool :=
  b.createdAt < a.createdAt || (a.createdAt == b.createdAt && b.id < a.id)

end Execution

end PhasedUpgrade
