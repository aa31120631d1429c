import PhasedUpgrade.Audit.Event
import PhasedUpgrade.Json.Print
import PhasedUpgrade.Json.Record
import PhasedUpgrade.Time.Rfc3339

/-!
# Records of audit events

Events are kept as JSON records with their fields in the order of declaration.
-/

namespace PhasedUpgrade.Audit

open Json (Source)

namespace Event

def fieldNames : List String :=
  ["event_id", "timestamp", "execution_id", "phase", "actor", "action", "result", "prev_hash",
    "hash"]

def toJson (event : Event) : Json :=
  .object [("event_id", .string event.id.text), ("timestamp", .string event.time.text),
    ("execution_id", .string event.execution.text), ("phase", .ofText? event.phase),
    ("actor", .ofText? event.actor), ("action", .string event.action),
    ("result", .string event.result), ("prev_hash", .string event.previous.text),
    ("hash", .string event.hash.text)]

def parsed? {α : Type} (parse : String → Option α) (source : Source) : Option α := do
  parse (← source.string?)

def ofSource? (budget : Nat) (source : Source) : Option Event := do
  let record ← source.record? fieldNames budget
  return {
    id := ← record.required "event_id" (parsed? EventId.ofText?)
    time := ← record.required "timestamp" (parsed? Time.Instant.ofText?)
    execution := ← record.required "execution_id" (parsed? ExecutionId.ofText?)
    phase := ← record.optional "phase" Source.string?
    actor := ← record.optional "actor" Source.string?
    action := ← record.required "action" Source.string?
    result := ← record.required "result" Source.string?
    previous := ← record.required "prev_hash" (parsed? Digest.ofText?)
    hash := ← record.required "hash" (parsed? Digest.ofText?) }

end Event

def toJson (events : List Event) : Json :=
  .array (events.map Event.toJson)

def ofText? (text : String) : Option (List Event) := do
  Source.list? Event.ofSource? Source.fullBudget (← Source.ofText? text)

end PhasedUpgrade.Audit
