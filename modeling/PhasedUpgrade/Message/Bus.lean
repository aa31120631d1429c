import PhasedUpgrade.Actor.Contract
import PhasedUpgrade.Message.Report

/-!
# The message bus

A bus is an append-only log of messages over a catalog. It stamps what it appends, so a draft
cannot pretend where it comes from.
-/

namespace PhasedUpgrade

open Time (Instant)

/-- The messages produced so far, oldest first, and the catalog that they are checked against. -/
structure Bus where
  catalog : Catalog
  log : List Message
deriving DecidableEq

namespace Bus

/-- The place number of the next message: one more than the last one's. -/
def nextSequence (bus : Bus) : Nat :=
  (bus.log.getLast?.map Message.sequence).getD 0 + 1

/-- The message that a draft becomes at the end of the log. -/
def stamp (bus : Bus) (actor : Contract) (phase : String) (draft : Message) (time : Instant) :
    Message :=
  draft.stamped actor.name phase bus.nextSequence time

/-- Append a draft, if the actor's contract and the catalog allow it. -/
def produce (bus : Bus) (actor : Contract) (phase : String) (draft : Message) (time : Instant) :
    Except ContractViolation Bus :=
  if actor.produces.contains draft.typeName then
    match bus.catalog.validate draft with
    | .ok () => .ok { bus with log := bus.log ++ [bus.stamp actor phase draft time] }
    | .error cause => .error (.invalidMessage actor.name cause)
  else .error (.undeclaredProduce actor.name draft.typeName)

def messagesOf (bus : Bus) (typeName : String) : List Message :=
  bus.log.filter (·.typeName = typeName)

/-- The messages of a type, if the actor's contract allows to read them. -/
def consume (bus : Bus) (actor : Contract) (typeName : String) :
    Except ContractViolation (List Message) :=
  if actor.consumes.contains typeName then .ok (bus.messagesOf typeName)
  else .error (.undeclaredConsume actor.name typeName)

def reports (bus : Bus) : List Report :=
  Message.reports bus.log

/-- Whether some report keeps the upgrade from going on. -/
def hasInhibitors (bus : Bus) : Bool :=
  bus.reports.any Report.isInhibitor

end Bus

end PhasedUpgrade
