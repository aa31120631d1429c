import PhasedUpgrade.Display.Phase
import PhasedUpgrade.Execution.Record
import PhasedUpgrade.Run.Outcome
import PhasedUpgrade.Store.Journal
import PhasedUpgrade.Store.Watched

/-!
# Runs as data

Messages, executions and journals as they are shown to others, without what differs from one run to
the next; and so the results of runs and calls to stores.
-/

namespace PhasedUpgrade

def Display.without (names : List String) : Json → Json
  | .object fields => .object (fields.filter fun field => !names.contains field.1)
  | other => other

def Message.summaryJson (message : Message) : Json :=
  Display.without ["produced_at"] message.toJson

def Message.summariesJson (messages : List Message) : Json :=
  .array (messages.map summaryJson)

def Execution.summaryJson (execution : Execution) : Json :=
  Display.without ["created_at", "updated_at"] execution.toJson

def Journal.summaryJson (journal : Journal) : Json :=
  .object [("messages", Message.summariesJson journal.messages),
    ("audit", Audit.entriesJson journal.audit), ("chain", Audit.chainJson journal.audit)]

def RunOutcome.toJson : RunOutcome → Json
  | completed => .object [("outcome", .string "completed")]
  | awaitingReboot phase required =>
      .object [("outcome", .string "awaiting_reboot"), ("phase", .string phase),
        ("required", .boolean required)]
  | failed phase retryable =>
      .object [("outcome", .string "failed"), ("phase", .string phase),
        ("retryable", .boolean retryable)]
  | inhibited phase count =>
      .object [("outcome", .string "inhibited"), ("phase", .string phase),
        ("inhibitors", .integer count)]
  | stopped phase => .object [("outcome", .string "stopped"), ("phase", .string phase)]

def RunResult.toJson (result : RunResult) : Json :=
  .object [("execution_id", .string result.executionId.text), ("kind", .string result.kind.name),
    ("state", .string result.state.name), ("outcome", result.outcome.toJson),
    ("phases", .array (result.phases.map PhaseSummary.toJson)),
    ("reports", .array (result.reports.map Report.encode)),
    ("outcome_text", .string result.outcome.text),
    ("failure", .boolean result.outcome.isFailure), ("exit_code", .integer result.exitCode),
    ("executed", Display.texts result.executedActors),
    ("inhibitors", .integer result.inhibitors.length)]

def StoreCall.toJson (call : StoreCall) : Json :=
  .array [.string call.name,
    match call with
    | .save execution =>
        .array [.string execution.state.name, .ofText? execution.lastCompletedPhase,
          .ofText? execution.failedPhase, .boolean execution.failure,
          .boolean execution.fatalStop]
    | .saveJournal _ journal =>
        .array [.integer journal.messages.length, .integer journal.audit.length]
    | .load id | .loadJournal id => .string id.text
    | .mostRecent kind => .string kind.name]

end PhasedUpgrade
