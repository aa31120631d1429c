import PhasedUpgrade.Digest.Sha256
import PhasedUpgrade.Identifier.EventId
import PhasedUpgrade.Identifier.ExecutionId
import PhasedUpgrade.Time.Instant

/-!
# Audit events

An event says what was done in an execution. It holds the hash of the event before it and its own,
which is taken over its fields and the hash before it.
-/

namespace PhasedUpgrade.Audit

open Time (Instant)

structure Event where
  id : EventId
  time : Instant
  execution : ExecutionId
  phase : Option String
  actor : Option String
  action : String
  result : String
  previous : Digest
  hash : Digest
deriving DecidableEq

/-- The eight bytes of a count in two's complement, the lowest first. -/
def littleEndian64 (value : Int) : List UInt8 :=
  (Digest.Sha256.bigEndian 8 (value % (Nat.pow 2 64 : Nat)).toNat).reverse

def textBytes (text : String) : List UInt8 :=
  text.toUTF8.toList

/-- The bytes of a text and a zero byte that ends it. -/
def closedBytes (text : String) : List UInt8 :=
  textBytes text ++ [0]

namespace Event

/-- The bytes that an event's hash is taken over. -/
def hashInput (event : Event) : List UInt8 :=
  event.id.bytes ++ littleEndian64 event.time.micros ++ textBytes event.execution.text ++
    closedBytes (event.phase.getD "") ++ closedBytes (event.actor.getD "") ++
    closedBytes event.action ++ closedBytes event.result ++ event.previous.bytes

/-- The hash that an event should hold. -/
def properHash (event : Event) : Digest :=
  Digest.sha256 event.hashInput

def sealed (event : Event) : Event :=
  { event with hash := event.properHash }

end Event

end PhasedUpgrade.Audit
