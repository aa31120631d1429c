import PhasedUpgrade.Json.Print
import PhasedUpgrade.Json.Record
import PhasedUpgrade.Message.Basic
import PhasedUpgrade.Time.Rfc3339

/-!
# Records of messages

Messages are kept as JSON records with their fields in the order of declaration.
-/

namespace PhasedUpgrade.Message

open Json (Source)

def fieldNames : List String :=
  ["type", "topic", "payload", "produced_by", "phase", "sequence", "produced_at"]

def toJson (message : Message) : Json :=
  .object [("type", .string message.typeName), ("topic", .string message.topic),
    ("payload", message.payload), ("produced_by", .string message.producer),
    ("phase", .string message.phase), ("sequence", .integer message.sequence),
    ("produced_at", .string message.producedAt.text)]

def ofSource? (budget : Nat) (source : Source) : Option Message := do
  let record ← source.record? fieldNames budget
  return {
    typeName := ← record.required "type" Source.string?
    topic := ← record.required "topic" Source.string?
    payload := ← record.required "payload" (Json.ofSource? record.budget)
    producer := ← record.required "produced_by" Source.string?
    phase := ← record.required "phase" Source.string?
    sequence := ← record.required "sequence" Source.natural?
    producedAt := ← record.required "produced_at" fun source => do
      Time.Instant.ofText? (← source.string?) }

def ofText? (text : String) : Option Message := do
  ofSource? Source.fullBudget (← Source.ofText? text)

end PhasedUpgrade.Message
