import PhasedUpgrade.Answers.Assignment
import PhasedUpgrade.Run.Perform
import PhasedUpgrade.Store.Directory
import PhasedUpgrade.Upgrade.Machine

/-!
# Commands

What the commands do to a machine. Answers are written only when all of them could be recorded, and
after a run only when the run came to an outcome.
-/

namespace PhasedUpgrade.Upgrade

open Files

inductive CommandError where
  | refused (cause : Refusal)
  | answers (cause : AnswerError)
  | run (cause : RunError)
deriving DecidableEq

namespace CommandError

def message : CommandError → String
  | refused cause => cause.message
  | answers cause => cause.message
  | run cause => cause.message

/-- The failure of storage behind an error, if there is one. -/
def storeError? : CommandError → Option StoreError
  | answers (.store cause) | run (.store cause) => some cause
  | _ => none

/-- The message with what the operating system said behind it. -/
def fullMessage (error : CommandError) : String :=
  match error.storeError? with
  | some (.io _ cause) => error.message ++ ": " ++ cause
  | _ => error.message

def exitCode : CommandError → Nat
  | refused _ => 2
  | answers cause => cause.exitCode
  | run cause => cause.exitCode

end CommandError

/-- A run that a command asks for. -/
structure Undertaking where
  setting : Setting
  request : RunRequest
  options : RunOptions
  answers : Answers

/-- The last phase of a run that only checks; an upgrade runs to its end. -/
def lastPhase : ExecutionKind → Option String
  | .preupgrade => some lastPhaseOfChecking
  | .upgrade => none

namespace Machine

def undertaking (machine : Machine) (settings : Settings) (kind : ExecutionKind)
    (arguments : Arguments) : Except CommandError Undertaking := do
  let answers ← (Answers.load machine.tree settings.answersPath).mapError .answers
  let request ←
    if arguments.resume then pure (.resume kind none)
    else do
      let configuration ← (machine.configuration settings arguments).mapError .refused
      pure (.fresh kind configuration)
  return {
    setting := ⟨workflow, registry settings.paths⟩
    request := request
    options := ⟨⟨none, .ofList arguments.whitelist⟩, lastPhase kind⟩
    answers := answers }

def store (machine : Machine) (settings : Settings) : DirectoryStore :=
  ⟨machine.tree, settings.storePath⟩

end Machine

/-- What a run did to a machine: its result, the variables that it set, and the files after it. -/
structure Executed where
  result : Except CommandError RunResult
  bindings : List (String × String)
  tree : Tree

namespace Machine

def execute (machine : Machine) (settings : Settings) (supply : Supply) (kind : ExecutionKind)
    (arguments : Arguments) : Executed :=
  match machine.undertaking settings kind arguments with
  | .error error => ⟨.error error, [], machine.tree⟩
  | .ok { setting, request, options, answers } =>
      let ended := setting.run supply request options answers (machine.store settings)
      match ended.result with
      | .error error => ⟨.error (.run error), ended.bindings, ended.store.tree⟩
      | .ok result =>
          match (ended.answers answers).save ended.store.tree settings.answersPath with
          | .error error => ⟨.error (.answers error), ended.bindings, ended.store.tree⟩
          | .ok tree => ⟨.ok result, ended.bindings, tree⟩

def recordAnswers (machine : Machine) (settings : Settings) (assignments : List String) :
    Except AnswerError Tree := do
  let answers ← Answers.load machine.tree settings.answersPath
  (← answers.assignAll assignments).save machine.tree settings.answersPath

end Machine

end PhasedUpgrade.Upgrade
