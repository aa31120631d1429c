import PhasedUpgrade.Audit.Record
import PhasedUpgrade.Message.Record

/-!
# Journals

Beside the record of an execution its journal is kept: the messages that were exchanged and the
audit trail.
-/

namespace PhasedUpgrade

open Json (Source)

structure Journal where
  messages : List Message
  audit : List Audit.Event
deriving DecidableEq, Inhabited

namespace Journal

def empty : Journal := ⟨[], []⟩

def fieldNames : List String := ["messages", "audit"]

def toJson (journal : Journal) : Json :=
  .object [("messages", .array (journal.messages.map Message.toJson)),
    ("audit", Audit.toJson journal.audit)]

/-- Read a record; a part that is left out is empty. -/
def ofSource? (budget : Nat) (source : Source) : Option Journal := do
  let record ← source.record? fieldNames budget
  return {
    messages := ← record.defaulted "messages" []
      (Source.list? Message.ofSource? record.budget)
    audit := ← record.defaulted "audit" [] (Source.list? Audit.Event.ofSource? record.budget) }

def ofBytes? (bytes : ByteArray) : Option Journal := do
  ofSource? Source.fullBudget (← Source.ofBytes? bytes)

def ofText? (text : String) : Option Journal :=
  ofBytes? text.toUTF8

end Journal

end PhasedUpgrade
