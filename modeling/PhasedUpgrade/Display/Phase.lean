import PhasedUpgrade.Audit.Trail
import PhasedUpgrade.Dispatch.Judgement
import PhasedUpgrade.Display.Error
import PhasedUpgrade.Workflow.Basic

/-!
# Phases as data

Phases and workflows, the results of actors, the judgement of a phase and the audit trail, as they
are shown to others.
-/

namespace PhasedUpgrade

def Display.texts (texts : List String) : Json :=
  .array (texts.map .string)

def Schema.toJson (schema : Schema) : Json :=
  .object [("name", .string schema.name), ("topic", .string schema.topic),
    ("fields", .array (schema.fields.map fun field =>
      .object [("name", .string field.name), ("kind", .string field.kind.name),
        ("required", .boolean field.required)]))]

def Phase.toJson (phase : Phase) : Json :=
  .object [("name", .string phase.name), ("tag", .string phase.tag),
    ("error_policy", .string phase.errorPolicy.name),
    ("retry_policy", .string phase.retryPolicy.name),
    ("flags", .object [("request_restart_after_phase", .boolean phase.requestRestart),
      ("restart_after_phase", .boolean phase.restart),
      ("stop_if_inhibited", .boolean phase.stopIfInhibited)]),
    ("wants_reboot", .boolean phase.wantsReboot)]

def Workflow.toJson (workflow : Workflow) : Json :=
  .object [("name", .string workflow.name), ("tag", .string workflow.tag),
    ("phases", .array (workflow.phases.map Phase.toJson))]

def ActorResult.toJson : ActorResult → Json
  | completed => .object [("completed", .boolean true)]
  | skipped reason => .object [("skipped", .string reason)]
  | fatal reason details => .object [("fatal", .array [.string reason, .ofText? details])]
  | violation cause => .object [("violation", cause.toJson)]
  | failed error => .object [("failed", .string error)]

def ActorFailure.toJson (failure : ActorFailure) : Json :=
  .object [("actor", .string failure.actor), ("kind", .string failure.kind.name),
    ("message", .string failure.message)]

def PhaseSummary.toJson (summary : PhaseSummary) : Json :=
  .object [("phase", .string summary.phase), ("status", .string summary.status.name),
    ("executed", Display.texts summary.executed), ("skipped", Display.texts summary.skipped),
    ("errors", .array (summary.errors.map ActorFailure.toJson))]

def Outcome.listJson (outcomes : List Outcome) : Json :=
  .array (outcomes.map fun outcome =>
    .array [.string outcome.actor, outcome.result.toJson])

def PhaseResult.toJson (result : PhaseResult) : Json :=
  .object [("phase", .string result.phase), ("status", .string result.status.name),
    ("status_text", .string result.status.name), ("terminal", .boolean result.terminal),
    ("succeeded", .boolean result.succeeded),
    ("errors", .array (result.errors.map ActorFailure.toJson)),
    ("completed", Display.texts result.completedActors),
    ("skipped", Display.texts result.skippedActors),
    ("outcomes", Outcome.listJson result.outcomes), ("summary", result.summary.toJson)]

namespace Audit

/-- What the events of a trail say, without their links. -/
def entriesJson (events : List Event) : Json :=
  .array (events.map fun event =>
    .object [("id", .string event.execution.text), ("phase", .ofText? event.phase),
      ("actor", .ofText? event.actor), ("action", .string event.action),
      ("result", .string event.result)])

def chainJson (events : List Event) : Json :=
  match verify events with
  | .ok () => .string "ok"
  | .error broken => Display.error "IntegrityViolation" broken.message

end Audit

end PhasedUpgrade
