import PhasedUpgrade.Declaration.Actor
import PhasedUpgrade.Declaration.Basic
import PhasedUpgrade.Dispatch.Selection
import PhasedUpgrade.Execution.Record
import PhasedUpgrade.Run.Request
import PhasedUpgrade.Store.Watched
import PhasedUpgrade.Upgrade.Arguments
import PhasedUpgrade.Workflow.Basic

/-!
# Declared runs

Phases, workflows and filters, what a run is asked to do, and the records that it finds, as JSON
data.
-/

namespace PhasedUpgrade.Declaration

def phase (json : Json) : Phase where
  name := text json "name"
  tag := text json "tag"
  errorPolicy := if text json "error_policy" = "report_only" then .reportOnly else .failPhase
  retryPolicy := if text json "retry_policy" = "disabled" then .disabled else .retryPhase
  requestRestart := flag json "request_restart"
  restart := flag json "restart"
  stopIfInhibited := flag json "stop_if_inhibited"

def workflow (json : Json) : Except WorkflowError Workflow :=
  Workflow.ofPhases (text json "name") (text json "tag") ((items json "phases").map phase)

/-- Filters; the list of required tags may be missing altogether. -/
def filters (json : Json) : Filters where
  onlyWithTags :=
    match json.field? "only_with_tags" with
    | some (.array tags) => some (.ofList (tags.map textOf))
    | _ => none
  whitelist := .ofList (texts json "whitelist_experimental")

def record? {α : Type} (read : Nat → Json.Source → Option α) (json : Json) : Option α := do
  read Json.Source.fullBudget (← Json.Source.ofText? json.compact)

def execution? : Json → Option Execution :=
  record? Execution.ofSource?

def journal (json : Json) : Journal :=
  (record? Journal.ofSource? json).getD .empty

def configuration (json : Json) : Configuration :=
  (record? Configuration.ofSource? json).getD default

def kind (json : Json) : ExecutionKind :=
  (ExecutionKind.choices.lookup (text json "kind")).getD .upgrade

def executionId (json : Json) : ExecutionId :=
  (ExecutionId.ofText? (text json "id")).getD default

def runOptions (json : Json) : RunOptions :=
  ⟨filters json, text? json "until_phase"⟩

def rescriptedActor (scripts : Json) (actor : Actor) : Actor where
  toContract := actor.toContract
  behave :=
    match scripts.field? actor.name with
    | some (.array steps) => script steps
    | _ => actor.behave

def rescripted (registry : Registry) (scripts : Json) : Registry :=
  { registry with
    actors := registry.actors.map (rescriptedActor scripts)
    distinct := by
      rw [List.map_map]
      exact registry.distinct }

def fault? (json : Json) : Option PlannedFault :=
  (text? json "call").map fun call => ⟨call, number json "nth"⟩

def entry (execution : ExecutionId) (json : Json) : Audit.Entry where
  execution := execution
  phase := text? json "phase"
  actor := text? json "actor"
  action := text json "action"
  result := text json "result"

def arguments (json : Json) : Upgrade.Arguments where
  resume := flag json "resume"
  debug := flag json "debug"
  verbose := flag json "verbose"
  skipSubscription := flag json "no_rhsm"
  enabledRepositories := texts json "enable_repos"
  target := text? json "target"
  whitelist := texts json "whitelist_experimental"

end PhasedUpgrade.Declaration
