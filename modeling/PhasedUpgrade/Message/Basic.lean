import PhasedUpgrade.Json.Value
import PhasedUpgrade.Time.Instant

/-!
# Messages

A message is a payload under a type and a topic, with the stamp of its production: the actor, the
phase, the place in the log and the time. A draft has no stamp yet.
-/

namespace PhasedUpgrade

open Time (Instant)

/-- A record that actors exchange. -/
structure Message where
  typeName : String
  topic : String
  payload : Json
  producer : String
  phase : String
  sequence : Nat
  producedAt : Instant
deriving DecidableEq, Inhabited

namespace Message

/-- A message that nobody has produced yet. -/
def draft (typeName topic : String) (payload : Json) : Message where
  typeName := typeName
  topic := topic
  payload := payload
  producer := ""
  phase := ""
  sequence := 0
  producedAt := .epoch

/-- The message that a draft becomes when it is produced. -/
def stamped (draft : Message) (producer phase : String) (sequence : Nat) (time : Instant) :
    Message :=
  { draft with producer := producer, phase := phase, sequence := sequence, producedAt := time }

end Message

end PhasedUpgrade
