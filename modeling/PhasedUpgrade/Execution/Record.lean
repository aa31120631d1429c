import PhasedUpgrade.Execution.Basic
import PhasedUpgrade.Json.Print
import PhasedUpgrade.Time.Rfc3339

/-!
# Records of executions

Executions are kept as JSON records with their fields in the order of declaration.
-/

namespace PhasedUpgrade.Execution

open Json (Source)

def fieldNames : List String :=
  ["id", "kind", "workflow", "configuration", "state", "last_completed_phase", "failed_phase",
    "failure", "fatal_stop", "created_at", "updated_at"]

def toJson (execution : Execution) : Json :=
  .object [("id", .string execution.id.text), ("kind", .string execution.kind.name),
    ("workflow", .string execution.workflow),
    ("configuration", execution.configuration.toJson),
    ("state", .string execution.state.name),
    ("last_completed_phase", .ofText? execution.lastCompletedPhase),
    ("failed_phase", .ofText? execution.failedPhase), ("failure", .boolean execution.failure),
    ("fatal_stop", .boolean execution.fatalStop),
    ("created_at", .string execution.createdAt.text),
    ("updated_at", .string execution.updatedAt.text)]

def instant? (source : Source) : Option Time.Instant := do
  Time.Instant.ofText? (← source.string?)

def ofSource? (budget : Nat) (source : Source) : Option Execution := do
  let record ← source.record? fieldNames budget
  return {
    id := ← record.required "id" fun source => do ExecutionId.ofText? (← source.string?)
    kind := ← record.required "kind" (Source.choice? ExecutionKind.choices record.budget)
    workflow := ← record.required "workflow" Source.string?
    configuration := ← record.required "configuration" (Configuration.ofSource? record.budget)
    state := ← record.required "state" (Source.choice? ExecutionState.choices record.budget)
    lastCompletedPhase := ← record.optional "last_completed_phase" Source.string?
    failedPhase := ← record.optional "failed_phase" Source.string?
    failure := ← record.required "failure" Source.boolean?
    fatalStop := ← record.defaulted "fatal_stop" false Source.boolean?
    createdAt := ← record.required "created_at" instant?
    updatedAt := ← record.required "updated_at" instant? }

def ofBytes? (bytes : ByteArray) : Option Execution := do
  ofSource? Source.fullBudget (← Source.ofBytes? bytes)

def ofText? (text : String) : Option Execution :=
  ofBytes? text.toUTF8

end PhasedUpgrade.Execution
