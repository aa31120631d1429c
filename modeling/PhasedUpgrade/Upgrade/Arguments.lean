import PhasedUpgrade.CommandLine.Options
import PhasedUpgrade.Execution.Basic

/-!
# Arguments of the upgrade

The commands of the program and their options.
-/

namespace PhasedUpgrade.Upgrade

open CommandLine

structure Arguments where
  resume : Bool
  debug : Bool
  verbose : Bool
  skipSubscription : Bool
  enabledRepositories : List String
  target : Option String
  whitelist : List String
deriving DecidableEq

inductive Command where
  | run (kind : ExecutionKind) (arguments : Arguments)
  | answer (assignments : List String)
deriving DecidableEq

namespace Arguments

def options : List (String × OptionForm) :=
  [("help", .help), ("resume", .switch), ("debug", .switch), ("verbose", .switch),
    ("no-rhsm", .switch), ("enablerepo", .repeated), ("target", .single),
    ("whitelist-experimental", .repeated)]

def ofGiven (given : List Given) : Arguments :=
  let isGiven (name : String) : Bool := given.any (·.name = name)
  { resume := isGiven "resume"
    debug := isGiven "debug"
    verbose := isGiven "verbose"
    skipSubscription := isGiven "no-rhsm"
    enabledRepositories := valuesOf given "enablerepo"
    target := (valuesOf given "target").head?
    whitelist := valuesOf given "whitelist-experimental" }

/-- The variables that say the same as the arguments, for the time after a reboot. -/
def impliedVariables (arguments : Arguments) : List (String × String) :=
  (if arguments.debug then [("IPU_DEBUG", "1")] else []) ++
  (if arguments.verbose then [("IPU_VERBOSE", "1")] else []) ++
  (if arguments.skipSubscription then [("IPU_NO_RHSM", "1")] else []) ++
  (if arguments.enabledRepositories.isEmpty then []
    else [("IPU_ENABLE_REPOS", ",".intercalate arguments.enabledRepositories)]) ++
  (arguments.target.map fun target => ("IPU_TARGET_VERSION", target)).toList

/-- The switches that are kept with an execution. -/
def flags (arguments : Arguments) : Flags where
  skipSubscription := arguments.skipSubscription
  debug := arguments.debug
  verbose := arguments.verbose
  enabledRepositories := arguments.enabledRepositories
  whitelist := arguments.whitelist

end Arguments

namespace Command

def names : List String := ["preupgrade", "upgrade", "answer", "help"]

def answerOptions : List (String × OptionForm) :=
  [("help", .help), ("section", .repeated)]

def runOfWords (kind : ExecutionKind) (words : List String) : Except UsageError Command := do
  return .run kind (.ofGiven (← readOptions Arguments.options words .start))

/-- Read the options of the command that records answers; there must be an answer. -/
def answerOfWords (words : List String) : Except UsageError Command := do
  match valuesOf (← readOptions answerOptions words .start) "section" with
  | [] => throw .missingArgument
  | assignments => return .answer assignments

def helpOfWords : List String → UsageError
  | [] => .help
  | [name] => if names.contains name then .help else .unknownCommand
  | _ => .unknownCommand

/-- What a word means that stands where the name of a command should. -/
def misplaced (words : List String) (word : Word) : UsageError :=
  match word, words with
  | .separator, [] => .nothingAsked
  | .separator, next :: _ => if names.contains next then .unknownArgument else .unknownCommand
  | .long name value, _ =>
      if name = "help" ∨ name = "version" then
        if value.isSome then .surplusValue
        else if name = "help" then .help
        else .version
      else .unknownArgument
  | .short letter, _ =>
      if letter = 'h' then .help else if letter = 'V' then .version else .unknownArgument
  | .plain _, _ => .unknownCommand

def ofWords : List String → Except UsageError Command
  | [] => .error .nothingAsked
  | "preupgrade" :: words => runOfWords .preupgrade words
  | "upgrade" :: words => runOfWords .upgrade words
  | "answer" :: words => answerOfWords words
  | "help" :: words => .error (helpOfWords words)
  | word :: words => .error (misplaced words (.ofText word))

end Command

end PhasedUpgrade.Upgrade
