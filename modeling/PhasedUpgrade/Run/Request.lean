import PhasedUpgrade.Actor.Registry
import PhasedUpgrade.Dispatch.Selection
import PhasedUpgrade.Execution.Basic

/-!
# Requests for runs

A run begins an execution of a workflow or takes one up again.
-/

namespace PhasedUpgrade

inductive RunRequest where
  | fresh (kind : ExecutionKind) (configuration : Configuration)
  /-- Without a name the newest execution of the kind is meant. -/
  | resume (kind : ExecutionKind) (id : Option ExecutionId)
deriving DecidableEq

/-- What is asked for one run only. -/
structure RunOptions where
  filters : Filters
  /-- The last phase to run, if it is not the workflow's last one. -/
  untilPhase : Option String
deriving DecidableEq

namespace RunOptions

/-- The whole workflow without experimental actors. -/
def none : RunOptions := ⟨.none, Option.none⟩

/-- The filters with what the execution itself lets take part. -/
def filtersFor (options : RunOptions) (configuration : Configuration) : Filters :=
  { options.filters with
    whitelist := .ofList (options.filters.whitelist.names ++ configuration.flags.whitelist) }

end RunOptions

/-- A phase that is to be run, with its actors in order. -/
structure PlannedPhase where
  phase : Phase
  actors : List Actor

/-- A workflow with the actors that carry it out. -/
structure Setting where
  workflow : Workflow
  registry : Registry

namespace Setting

/-- The phases from one place up to another, each with its actors. -/
def plan (setting : Setting) (filters : Filters) (start stop : Nat) :
    Except Cycle (List PlannedPhase) :=
  ((setting.workflow.phases.take stop).drop start).mapM fun phase => do
    return ⟨phase, ← Dispatch.plan setting.registry phase setting.workflow.tag filters⟩

end Setting

end PhasedUpgrade
