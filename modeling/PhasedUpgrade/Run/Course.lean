import PhasedUpgrade.Execution.Environment
import PhasedUpgrade.Run.Account
import PhasedUpgrade.Run.Entry
import PhasedUpgrade.Run.Outcome

/-!
# The course of a run

A run goes through its planned phases one by one. What a phase comes to is decided by its verdict;
the journal is written before the record of the execution, whose writing commits the phase.
-/

namespace PhasedUpgrade

/-- What follows from a phase that has been run. -/
inductive Verdict where
  | failed (terminal retryable : Bool)
  | inhibited (count : Nat)
  | stopped
  | reboot (required : Bool)
  | onward
deriving DecidableEq

namespace Verdict

/-- The verdict on a phase, by its result and by what is on the bus after it. -/
def ofResult (phase : Phase) (result : PhaseResult) (bus : Bus) (isLastWanted : Bool) : Verdict :=
  if !result.succeeded then
    failed result.terminal (!result.terminal && phase.retryPolicy = .retryPhase)
  else if phase.stopIfInhibited && bus.hasInhibitors then
    inhibited (bus.reports.filter Report.isInhibitor).length
  else if isLastWanted then stopped
  else if phase.wantsReboot then reboot phase.restart
  else onward

def commits : Verdict → Bool
  | failed _ _ | inhibited _ => false
  | stopped | reboot _ | onward => true

/-- The state that the execution changes to, if it does not go on running. -/
def state? : Verdict → Option ExecutionState
  | failed _ _ | inhibited _ => some .failed
  | stopped => some .completed
  | reboot _ => some .awaitingReboot
  | onward => none

/-- The outcome of the run, if it ends with the phase. -/
def outcome? (phase : String) : Verdict → Option RunOutcome
  | failed _ retryable => some (.failed phase retryable)
  | inhibited count => some (.inhibited phase count)
  | stopped => some (.stopped phase)
  | reboot required => some (.awaitingReboot phase required)
  | onward => none

def note (verdict : Verdict) (phase : String) (time : Time.Instant) (execution : Execution) :
    Execution :=
  match verdict with
  | failed terminal _ => execution.failPhase phase terminal time
  | inhibited _ => execution.failPhase phase false time
  | stopped | reboot _ | onward => execution.commitPhase phase time

end Verdict

/-- Where a run stands: the record of its execution and the bench of its actors. -/
structure Course where
  execution : Execution
  bench : Workbench

/--
A phase that its actors have been through: their visits, what they come to, and where the run stands
with that noted in the record of its execution.
-/
structure Trial where
  visits : List Visit
  result : PhaseResult
  verdict : Verdict
  course : Course

namespace Course

/-- The time that is taken next from the supply. -/
def now (course : Course) (supply : Supply) : Time.Instant :=
  supply.time course.bench.used

/-- Write an entry about the run itself into the audit trail. -/
def record (course : Course) (supply : Supply) (phase : Option String) (action result : String) :
    Course :=
  let entry : Audit.Entry := ⟨course.execution.id, phase, none, action, result⟩
  { course with bench := course.bench.record supply entry }

/-- Change the state of the execution, with an entry in the audit trail. -/
def change (course : Course) (supply : Supply) (state : ExecutionState) :
    Except RunError Course := do
  let execution ←
    (course.execution.transition state (course.now supply)).mapError RunError.transition
  return { course with execution := execution }.record supply none "state_changed" state.name

/-- The steps that make a course durable, with so many of its messages. -/
def persisted (course : Course) (count : Nat) : List RunStep :=
  [.saveJournal course.execution.id ⟨course.bench.bus.log.take count, course.bench.trail⟩,
    .save course.execution]

def runActors (course : Course) (supply : Supply) (planned : PlannedPhase) :
    List Visit × Course :=
  let (visits, bench) :=
    planned.phase.visits supply course.execution planned.actors course.bench
  (visits, { course with bench := bench })

/-- Let the actors of a phase take their turns and judge the phase. -/
def tryPhase (course : Course) (supply : Supply) (isLastWanted : Phase → Bool)
    (planned : PlannedPhase) : Trial :=
  let phase := planned.phase
  let (visits, course) :=
    (course.record supply (some phase.name) "phase_started" "").runActors supply planned
  let result := PhaseResult.conclude phase (visits.map Visit.outcome)
  let course := course.record supply (some phase.name) "phase_finished" result.status.name
  let verdict := Verdict.ofResult phase result course.bench.bus (isLastWanted phase)
  let execution := verdict.note phase.name (course.now supply) course.execution
  ⟨visits, result, verdict, { course with execution := execution }⟩

/-- Change the state of the execution as a verdict asks for. -/
def heed (course : Course) (supply : Supply) (verdict : Verdict) : Except RunError Course :=
  match verdict.state? with
  | some state => course.change supply state
  | none => .ok course

/-- Run a phase; gives its result, what follows from it and where the run stands then. -/
def runPhase (course : Course) (supply : Supply) (isLastWanted : Phase → Bool)
    (planned : PlannedPhase) : Account (PhaseResult × Verdict × Course) := do
  let trial := course.tryPhase supply isLastWanted planned
  Account.does (trial.visits.map .visit)
  let after ← Account.ends (trial.course.heed supply trial.verdict)
  let kept := if trial.verdict.commits then after else course
  Account.does (after.persisted kept.bench.bus.log.length)
  return (trial.result, trial.verdict, after)

/-- Run phases until one of them ends the run; without such a one the execution is completed. -/
def runPhases (supply : Supply) (isLastWanted : Phase → Bool) :
    List PlannedPhase → Course → Account (List PhaseSummary × RunOutcome × Course)
  | [], course => do
      let course ← Account.ends (course.change supply .completed)
      Account.does (course.persisted course.bench.bus.log.length)
      return ([], .completed, course)
  | planned :: rest, course => do
      let (result, verdict, course) ← course.runPhase supply isLastWanted planned
      match verdict.outcome? planned.phase.name with
      | some outcome => return ([result.summary], outcome, course)
      | none =>
          let (summaries, outcome, course) ← runPhases supply isLastWanted rest course
          return (result.summary :: summaries, outcome, course)

/-- Begin an execution: it is running from the first write on. -/
def begin (course : Course) (supply : Supply) : Account Course := do
  let course ← Account.ends (course.change supply .running)
  Account.does [.save course.execution]
  return course

/--
Take an execution up again: set the captured variables, forget an earlier failure and go on
running if there is anything left to run.
-/
def resume (course : Course) (supply : Supply) (hasPhases : Bool) : Account Course := do
  let restored := Environment.restorable course.execution.configuration.env
  Account.does (restored.entries.map fun (name, value) => .setVariable name value)
  let course := { course with execution := course.execution.clearFailure }
  let course ← Account.ends (course.change supply .resumed)
  Account.does [.save course.execution]
  Account.ends (if hasPhases then course.change supply .running else .ok course)

def opening (supply : Supply) (entry : Entry) (bench : Workbench) (hasPhases : Bool) :
    Account Course :=
  let course : Course := ⟨entry.execution, bench⟩
  if entry.resumes then course.resume supply hasPhases else course.begin supply

def account (supply : Supply) (entry : Entry) (bench : Workbench) (isLastWanted : Phase → Bool)
    (plan : List PlannedPhase) : Account RunResult := do
  let course ← opening supply entry bench (!plan.isEmpty)
  let (summaries, outcome, course) ← runPhases supply isLastWanted plan course
  return {
    executionId := course.execution.id
    kind := course.execution.kind
    state := course.execution.state
    outcome := outcome
    phases := summaries
    reports := course.bench.bus.reports }

end Course

end PhasedUpgrade
