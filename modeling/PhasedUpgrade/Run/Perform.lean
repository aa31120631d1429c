import PhasedUpgrade.Run.Course

/-!
# Runs on stores

A run is prepared from its store and then carried out on it step by step, up to the first write
that fails. Nothing is written and no actor is run before all phases have been planned.
-/

namespace PhasedUpgrade

/-- A run that has ended: its result, the steps that were carried out, and the store after them. -/
structure EndedRun (σ : Type) where
  result : Except RunError RunResult
  steps : List RunStep
  store : σ

namespace EndedRun

variable {σ : Type}

def visits (run : EndedRun σ) : List Visit :=
  run.steps.filterMap fun
    | .visit visit => some visit
    | _ => none

/-- The variables that were set, in order. -/
def bindings (run : EndedRun σ) : List (String × String) :=
  run.steps.filterMap fun
    | .setVariable name value => some (name, value)
    | _ => none

/-- The answers as the last actor left them. -/
def answers (run : EndedRun σ) (start : Answers) : Answers :=
  (run.visits.getLast?.map Visit.answers).getD start

end EndedRun

variable {σ : Type} [Store σ]

def RunStep.perform : RunStep → σ → StoreResult σ Unit
  | .setVariable _ _, store => (.ok (), store)
  | .visit _, store => (.ok (), store)
  | .save execution, store => Store.save execution store
  | .saveJournal id journal, store => Store.saveJournal id journal store

/-- Carry out steps up to the first that fails; gives those that were carried out. -/
def RunStep.performAll : List RunStep → σ → List RunStep × StoreResult σ Unit
  | [], store => ([], .ok (), store)
  | step :: rest, store =>
      match step.perform store with
      | (.error error, store) => ([], .error error, store)
      | (.ok (), store) =>
          let (done, result) := performAll rest store
          (step :: done, result)

def Account.perform (account : Account RunResult) (store : σ) : EndedRun σ :=
  match RunStep.performAll account.steps store with
  | (done, .ok (), store) => ⟨account.ended, done, store⟩
  | (done, .error error, store) => ⟨.error (.store error), done, store⟩

namespace Setting

def entry (setting : Setting) (supply : Supply) (request : RunRequest) (store : σ) :
    Except RunError Entry × σ :=
  match request with
  | .fresh kind configuration =>
      (.ok (.fresh setting.workflow supply.executionId kind configuration (supply.time 0)), store)
  | .resume kind id => Entry.resume setting.workflow kind id store

/-- The account of a run from an entry on, or why its phases cannot be planned. -/
def account (setting : Setting) (supply : Supply) (options : RunOptions) (answers : Answers)
    (entry : Entry) : Except RunError (Account RunResult) := do
  let workflow := setting.workflow
  let stop ← (workflow.stopPlace options.untilPhase).mapError .refused
  let plan ← (setting.plan (options.filtersFor entry.execution.configuration) entry.start
    stop).mapError .cycle
  let bench : Workbench :=
    ⟨⟨setting.registry.catalog, entry.journal.messages⟩, answers, entry.journal.audit, 0⟩
  let isLastWanted (phase : Phase) : Bool :=
    options.untilPhase = some phase.name && stop < workflow.phases.length
  return Course.account supply entry bench isLastWanted plan

def run (setting : Setting) (supply : Supply) (request : RunRequest) (options : RunOptions)
    (answers : Answers) (store : σ) : EndedRun σ :=
  match setting.entry supply request store with
  | (.error error, store) => ⟨.error error, [], store⟩
  | (.ok entry, store) =>
      match setting.account supply options answers entry with
      | .error error => ⟨.error error, [], store⟩
      | .ok account => account.perform store

end Setting

end PhasedUpgrade
