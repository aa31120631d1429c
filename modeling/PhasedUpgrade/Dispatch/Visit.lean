import PhasedUpgrade.Actor.Registry
import PhasedUpgrade.Audit.Trail

/-!
# Visits of actors

An actor is run on a workbench: the bus, the answers and the audit trail of its execution. Times and
event names are not made here but taken, one after the other, from a supply.
-/

namespace PhasedUpgrade

open Time (Instant)

/--
The times and the event names that are handed out, each by its place, and the name for an execution
that is begun.
-/
structure Supply where
  time : Nat → Instant
  eventId : Nat → EventId
  executionId : ExecutionId

/-- What actors work on, and how much of the supply has been used. -/
structure Workbench where
  bus : Bus
  answers : Answers
  trail : List Audit.Event
  used : Nat

namespace Workbench

def record (bench : Workbench) (supply : Supply) (entry : Audit.Entry) : Workbench :=
  { bench with
    trail := Audit.record bench.trail entry (supply.eventId bench.used) (supply.time bench.used)
    used := bench.used + 1 }

/-- Append a draft to the bus, if that is allowed. -/
def produce (bench : Workbench) (supply : Supply) (actor : Contract) (phase : String)
    (draft : Message) : Except ContractViolation Unit × Workbench :=
  match bench.bus.produce actor phase draft (supply.time bench.used) with
  | .ok bus => (.ok (), { bench with bus := bus, used := bench.used + 1 })
  | .error violation => (.error violation, bench)

end Workbench

abbrev Note : Type := String × Json

/-- Run a program on a workbench; gives its value, what it left behind and its remarks. -/
def Program.run {α : Type} (supply : Supply) (actor : Contract) (phase : String) :
    Program α → Workbench → α × Workbench × List Note
  | .done value, bench => (value, bench, [])
  | .produce draft next, bench =>
      let (result, bench) := bench.produce supply actor phase draft
      (next result).run supply actor phase bench
  | .consume typeName next, bench =>
      (next (bench.bus.consume actor typeName)).run supply actor phase bench
  | .answer heading key next, bench =>
      (next (bench.answers.get? heading key)).run supply actor phase bench
  | .recordAnswer heading key value next, bench =>
      next.run supply actor phase { bench with answers := bench.answers.set heading key value }
  | .note key value next, bench =>
      let (result, bench, notes) := next.run supply actor phase bench
      (result, bench, (key, value) :: notes)

/--
An actor's turn in a phase of an execution and what came of it: the messages that it put on the bus,
and the answers as it left them.
-/
structure Visit where
  execution : ExecutionId
  phase : String
  actor : String
  result : ActorResult
  produced : List Message
  notes : List Note
  answers : Answers

namespace Visit

/-- The audit entry for the begin or the end of an actor. -/
def entry (execution : Execution) (phase actor action result : String) : Audit.Entry where
  execution := execution.id
  phase := some phase
  actor := some actor
  action := action
  result := result

/-- Run one actor between the entries for its begin and its end. -/
def make (supply : Supply) (execution : Execution) (phase : String) (actor : Actor)
    (bench : Workbench) : Visit × Workbench :=
  let before := bench.bus.log.length
  let bench := bench.record supply (entry execution phase actor.name "actor_started" "")
  let (ended, bench, notes) :=
    Program.run supply actor.toContract phase (actor.behave ⟨actor.name, phase, execution⟩) bench
  let result := ActorResult.ofEnd ended
  let bench := bench.record supply
    (entry execution phase actor.name "actor_finished" result.label)
  (⟨execution.id, phase, actor.name, result, bench.bus.log.drop before, notes, bench.answers⟩,
    bench)

/-- Run actors in turn for as long as `goesOn` holds of their results. -/
def makeAll (supply : Supply) (execution : Execution) (phase : String)
    (goesOn : ActorResult → Bool) : List Actor → Workbench → List Visit × Workbench
  | [], bench => ([], bench)
  | actor :: rest, bench =>
      let (visit, bench) := make supply execution phase actor bench
      if goesOn visit.result then
        let (visits, bench) := makeAll supply execution phase goesOn rest bench
        (visit :: visits, bench)
      else ([visit], bench)

end Visit

end PhasedUpgrade
