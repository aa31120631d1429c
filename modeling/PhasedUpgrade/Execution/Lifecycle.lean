/-!
# The lifecycle of an execution

The states that an execution goes through and the changes between them that are allowed.
-/

namespace PhasedUpgrade

inductive ExecutionState where
  | notStarted
  | running
  | awaitingReboot
  | resumed
  | completed
  | failed
deriving DecidableEq

/-- A change of state that is not allowed, by the names of the two states. -/
structure IllegalTransition where
  source : String
  target : String
deriving DecidableEq

namespace IllegalTransition

def message (error : IllegalTransition) : String :=
  "illegal transition " ++ error.source ++ " -> " ++ error.target

end IllegalTransition

namespace ExecutionState

def name : ExecutionState → String
  | notStarted => "not_started"
  | running => "running"
  | awaitingReboot => "awaiting_reboot"
  | resumed => "resumed"
  | completed => "completed"
  | failed => "failed"

def all : List ExecutionState :=
  [notStarted, running, awaitingReboot, resumed, completed, failed]

def choices : List (String × ExecutionState) :=
  all.map fun state => (state.name, state)

/-- The states that may follow; a run that was cut off while running is resumed. -/
def successors : ExecutionState → List ExecutionState
  | notStarted => [running]
  | running => [awaitingReboot, completed, failed, resumed]
  | awaitingReboot => [resumed]
  | resumed => [running, completed, failed]
  | completed => []
  | failed => [resumed]

def isTerminal (state : ExecutionState) : Bool :=
  state.successors.isEmpty

def change (source target : ExecutionState) : Except IllegalTransition ExecutionState :=
  if target ∈ source.successors then .ok target else .error ⟨source.name, target.name⟩

end ExecutionState

end PhasedUpgrade
