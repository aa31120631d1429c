import PhasedUpgrade.Run.Request
import PhasedUpgrade.Run.Error
import PhasedUpgrade.Store.Basic

/-!
# Entries into workflows

Where a run enters its workflow. A fresh run enters at the first phase; a resumed one behind the
last committed phase of its execution, if the execution allows to be resumed at all.
-/

namespace PhasedUpgrade

/-- An execution about to run, the place of its first phase, and its journal up to there. -/
structure Entry where
  execution : Execution
  start : Nat
  journal : Journal
  resumes : Bool

namespace Workflow

/-- The place behind the last committed phase of an execution. -/
def placeAfter (workflow : Workflow) (execution : Execution) : Except StoreError Nat :=
  match execution.lastCompletedPhase with
  | none => .ok 0
  | some name =>
      match workflow.position? name with
      | some place => .ok (place + 1)
      | none => .error (.inconsistent
          ("phase '" ++ name ++ "' is not part of workflow '" ++ workflow.name ++ "'"))

/-- Whether the phase at a place, if there is one, may be run by a resumed run. -/
def checkRetry (workflow : Workflow) (execution : Execution) (place : Nat) :
    Except Refusal Unit :=
  let next := workflow.phases[place]?
  if execution.fatalStop then
    .error (.fatalStop (execution.failedPhase.getD ((next.map Phase.name).getD "")))
  else
    match next with
    | some phase =>
        if phase.retryPolicy = .disabled then .error (.notRetryable phase.name) else .ok ()
    | none => .ok ()

/--
The place at which an execution may be resumed. After a reboot that the workflow itself asked for
no phase is run twice, so the retry policy of the next one does not matter.
-/
def resumePlace (workflow : Workflow) (execution : Execution) : Except RunError Nat := do
  if execution.workflow ≠ workflow.name then
    throw (.refused (.workflowMismatch execution.id.text workflow.name execution.workflow))
  let place ← (workflow.placeAfter execution).mapError .store
  match execution.state with
  | .completed => throw (.refused (.alreadyCompleted execution.id.text))
  | .awaitingReboot => return place
  | .notStarted | .running | .resumed | .failed =>
      (workflow.checkRetry execution place).mapError .refused
      return place

/-- The journal without the messages of phases at a place or behind it. -/
def committedJournal (workflow : Workflow) (place : Nat) (journal : Journal) : Journal :=
  let committed := (workflow.phases.take place).map Phase.name
  { journal with messages := journal.messages.filter fun message =>
      committed.contains message.phase }

def stopPlace (workflow : Workflow) : Option String → Except Refusal Nat
  | none => .ok workflow.phases.length
  | some name =>
      match workflow.position? name with
      | some place => .ok (place + 1)
      | none => .error (.unknownPhase name)

end Workflow

namespace Entry

variable {σ : Type} [Store σ]

def sought (kind : ExecutionKind) : Option ExecutionId → σ → Except RunError Execution × σ
  | some id, store =>
      match Store.load id store with
      | (.ok (some execution), store) => (.ok execution, store)
      | (.ok none, store) => (.error (.refused (.unknownExecution id.text)), store)
      | (.error error, store) => (.error (.store error), store)
  | none, store =>
      match Store.mostRecent kind store with
      | (.ok (some execution), store) => (.ok execution, store)
      | (.ok none, store) => (.error (.refused .nothingToResume), store)
      | (.error error, store) => (.error (.store error), store)

def resume (workflow : Workflow) (kind : ExecutionKind) (id : Option ExecutionId) (store : σ) :
    Except RunError Entry × σ :=
  match sought kind id store with
  | (.error error, store) => (.error error, store)
  | (.ok execution, store) =>
      match workflow.resumePlace execution with
      | .error error => (.error error, store)
      | .ok place =>
          match Store.loadJournal execution.id store with
          | (.error error, store) => (.error (.store error), store)
          | (.ok journal, store) =>
              (.ok ⟨execution, place, workflow.committedJournal place journal, true⟩, store)

def fresh (workflow : Workflow) (id : ExecutionId) (kind : ExecutionKind)
    (configuration : Configuration) (time : Time.Instant) : Entry :=
  ⟨.create id kind workflow.name configuration time, 0, .empty, false⟩

end Entry

end PhasedUpgrade
