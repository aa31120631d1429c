import PhasedUpgrade.Audit.Event

/-!
# Audit trails

A trail is a list of events, each linked to the one before it by that one's hash. The first is
linked to the digest of zeros.
-/

namespace PhasedUpgrade.Audit

open Time (Instant)

/-- A link of a trail that does not hold, by its place. -/
structure BrokenChain where
  index : Nat
deriving DecidableEq

def BrokenChain.message (broken : BrokenChain) : String :=
  "audit chain broken at event " ++ toString broken.index

/-- What an entry says, apart from its place in the trail. -/
structure Entry where
  execution : ExecutionId
  phase : Option String
  actor : Option String
  action : String
  result : String
deriving DecidableEq

/-- The hash that the next event of a trail is linked to. -/
def lastHash (events : List Event) : Digest :=
  (events.getLast?.map Event.hash).getD .zero

def Entry.event (entry : Entry) (id : EventId) (time : Instant) (previous : Digest) : Event :=
  Event.sealed {
    id := id
    time := time
    execution := entry.execution
    phase := entry.phase
    actor := entry.actor
    action := entry.action
    result := entry.result
    previous := previous
    hash := .zero }

def record (events : List Event) (entry : Entry) (id : EventId) (time : Instant) : List Event :=
  events ++ [entry.event id time (lastHash events)]

/-- Check the links from an event at some place on, given the hash before it. -/
def verifyFrom (previous : Digest) (index : Nat) : List Event → Except BrokenChain Unit
  | [] => .ok ()
  | event :: rest =>
      if event.previous = previous ∧ event.hash = event.properHash then
        verifyFrom event.hash (index + 1) rest
      else .error ⟨index⟩

/-- Check all links of a trail; the first that does not hold is reported. -/
def verify (events : List Event) : Except BrokenChain Unit :=
  verifyFrom .zero 0 events

end PhasedUpgrade.Audit
