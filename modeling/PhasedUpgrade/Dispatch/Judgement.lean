import PhasedUpgrade.Dispatch.Visit
import PhasedUpgrade.Workflow.Phase

/-!
# Judgements of phases

How the results of actors decide on their phase: a fatal stop or a breach of contract fails it for
good, an unexpected failure as its error policy says.
-/

namespace PhasedUpgrade

inductive PhaseStatus where
  | succeeded
  | failed
deriving DecidableEq

def PhaseStatus.name : PhaseStatus → String
  | succeeded => "succeeded"
  | failed => "failed"

inductive FailureKind where
  | fatal
  | contractViolation
  | unexpected
deriving DecidableEq

def FailureKind.name : FailureKind → String
  | fatal => "fatal"
  | contractViolation => "contract_violation"
  | unexpected => "unexpected"

structure ActorFailure where
  actor : String
  kind : FailureKind
  message : String
deriving DecidableEq

/-- What an actor's turn came to. -/
structure Outcome where
  actor : String
  result : ActorResult
deriving DecidableEq

/-- A judged phase; a terminal one rules a retry out. -/
structure PhaseResult where
  phase : String
  status : PhaseStatus
  outcomes : List Outcome
  errors : List ActorFailure
  terminal : Bool
deriving DecidableEq

/-- The actors of a judged phase by how they ended. -/
structure PhaseSummary where
  phase : String
  status : PhaseStatus
  executed : List String
  skipped : List String
  errors : List ActorFailure
deriving DecidableEq

namespace ActorResult

/-- Whether a phase goes on after the result of one of its actors. -/
def goesOn (policy : ErrorPolicy) : ActorResult → Bool
  | completed | skipped _ => true
  | fatal _ _ | violation _ => false
  | failed _ => policy = .reportOnly

/-- Whether a result fails its phase because the error policy says so. -/
def fails (policy : ErrorPolicy) : ActorResult → Bool
  | failed _ => policy = .failPhase
  | completed | skipped _ | fatal _ _ | violation _ => false

/-- Whether a result rules out that its phase is retried. -/
def isTerminal : ActorResult → Bool
  | fatal _ _ | violation _ => true
  | completed | skipped _ | failed _ => false

/-- The kind and the text of a failure, if the result is one. -/
def failure? : ActorResult → Option (FailureKind × String)
  | completed | skipped _ => none
  | fatal reason none => some (.fatal, reason)
  | fatal reason (some details) => some (.fatal, reason ++ ": " ++ details)
  | violation cause => some (.contractViolation, cause.message)
  | failed error => some (.unexpected, error)

end ActorResult

def Outcome.failure? (outcome : Outcome) : Option ActorFailure :=
  outcome.result.failure?.map fun (kind, message) => ⟨outcome.actor, kind, message⟩

namespace PhaseResult

def conclude (phase : Phase) (outcomes : List Outcome) : PhaseResult :=
  let terminal := outcomes.any fun outcome => outcome.result.isTerminal
  let failed := outcomes.any fun outcome => outcome.result.fails phase.errorPolicy
  { phase := phase.name
    status := if failed || terminal then .failed else .succeeded
    outcomes := outcomes
    errors := outcomes.filterMap Outcome.failure?
    terminal := terminal }

def succeeded (result : PhaseResult) : Bool :=
  result.status = .succeeded

def actorsWhere (result : PhaseResult) (p : ActorResult → Bool) : List String :=
  (result.outcomes.filter fun outcome => p outcome.result).map Outcome.actor

def completedActors (result : PhaseResult) : List String :=
  result.actorsWhere fun
    | .completed => true
    | _ => false

def skippedActors (result : PhaseResult) : List String :=
  result.actorsWhere fun
    | .skipped _ => true
    | _ => false

def summary (result : PhaseResult) : PhaseSummary where
  phase := result.phase
  status := result.status
  executed := result.completedActors
  skipped := result.skippedActors
  errors := result.errors

end PhaseResult

def Visit.outcome (visit : Visit) : Outcome :=
  ⟨visit.actor, visit.result⟩

/-- Run the planned actors of a phase as its error policy allows. -/
def Phase.visits (phase : Phase) (supply : Supply) (execution : Execution) (actors : List Actor)
    (bench : Workbench) : List Visit × Workbench :=
  Visit.makeAll supply execution phase.name (ActorResult.goesOn phase.errorPolicy) actors bench

end PhasedUpgrade
