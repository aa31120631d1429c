import PhasedUpgrade.Dispatch.Judgement
import PhasedUpgrade.Message.Report

/-!
# Outcomes of runs

How a run may end that did not break down, and what is told of it.
-/

namespace PhasedUpgrade

inductive RunOutcome where
  /-- Every phase has been committed. -/
  | completed
  | awaitingReboot (phase : String) (required : Bool)
  | failed (phase : String) (retryable : Bool)
  /-- Reports keep the upgrade from going on after a phase. -/
  | inhibited (phase : String) (count : Nat)
  /-- The phase that was asked for as the last one has been committed. -/
  | stopped (phase : String)
deriving DecidableEq

namespace RunOutcome

def isFailure : RunOutcome → Bool
  | failed _ _ | inhibited _ _ => true
  | completed | awaitingReboot _ _ | stopped _ => false

def text : RunOutcome → String
  | completed => "completed"
  | awaitingReboot phase required =>
      "reboot " ++ (if required then "required" else "requested") ++ " after phase '" ++ phase ++
        "'"
  | failed phase retryable =>
      "phase '" ++ phase ++ "' failed; " ++
        if retryable then "resume will retry it" else "resume is not possible"
  | inhibited phase count =>
      toString count ++ " inhibitor(s) reported by phase '" ++ phase ++ "'"
  | stopped phase => "stopped after phase '" ++ phase ++ "'"

end RunOutcome

structure RunResult where
  executionId : ExecutionId
  kind : ExecutionKind
  state : ExecutionState
  outcome : RunOutcome
  /-- The phases that this run went through. -/
  phases : List PhaseSummary
  /-- All reports, also those of a phase that was not committed. -/
  reports : List Report
deriving DecidableEq

namespace RunResult

/-- The reports that keep the upgrade from going on. -/
def inhibitors (result : RunResult) : List Report :=
  result.reports.filter Report.isInhibitor

/-- The actors that ran to their end. -/
def executedActors (result : RunResult) : List String :=
  result.phases.flatMap PhaseSummary.executed

def exitCode (result : RunResult) : Nat :=
  if result.outcome.isFailure then 1 else 0

end RunResult

end PhasedUpgrade
