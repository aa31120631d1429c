import PhasedUpgrade.Upgrade.Commands

/-!
# The console

What the operator is told: the texts of results and errors, how much is logged, and where to.
-/

namespace PhasedUpgrade.Upgrade

def version : String := "0.1.0"

inductive LogLevel where
  | debug
  | info
  | warn
deriving DecidableEq

namespace LogLevel

def name : LogLevel → String
  | debug => "debug"
  | info => "info"
  | warn => "warn"

def ofSwitches (isDebug isVerbose : Bool) : LogLevel :=
  if isDebug then debug else if isVerbose then info else warn

end LogLevel

def logPath (directory : String) (kind : ExecutionKind) : String :=
  Files.join directory ("ipu-" ++ kind.name ++ ".log")

def line (text : String) : String :=
  text ++ "\n"

def reportText (report : Report) : String :=
  line ("  [" ++ report.severity.name ++ "] " ++ report.title ++ ": " ++ report.summary) ++
    match report.remediation with
    | some hint => line ("      remediation: " ++ hint)
    | none => ""

def advice (kind : ExecutionKind) : RunOutcome → String
  | .awaitingReboot _ _ =>
      line "Reboot the system, then run `ipu upgrade --resume` to continue."
  | .failed _ true =>
      line ("Fix the reported problem and run `ipu " ++ kind.name ++ " --resume`.")
  | .inhibited _ _ => line "Resolve the inhibitors above and run the command again."
  | .completed | .failed _ false | .stopped _ => ""

def resultText (result : RunResult) : String :=
  (if result.reports.isEmpty then ""
    else line "Reports:" ++ String.join (result.reports.map reportText) ++ line "") ++
  line ("Execution " ++ result.executionId.text ++ " (" ++ result.kind.name ++ "): " ++
    result.state.name) ++
  line result.outcome.text ++ advice result.kind result.outcome

def recordedText (count : Nat) (path : String) : String :=
  line ("Recorded " ++ toString count ++ " answer(s) in " ++ path)

def errorText (error : CommandError) : String :=
  line ("error: " ++ error.fullMessage)

def usage : String :=
  String.join (["Usage: ipu preupgrade [OPTIONS]", "       ipu upgrade [OPTIONS]",
    "       ipu answer --section <SCOPE.KEY=VALUE>...", "", "Options of a run:",
    "  --resume", "  --debug", "  --verbose", "  --no-rhsm", "  --enablerepo <REPOID>",
    "  --target <VERSION>", "  --whitelist-experimental <ACTOR>"].map line)

/-- What is printed when a command line is not obeyed. -/
def usageText : CommandLine.UsageError → String
  | .help | .nothingAsked => usage
  | .version => line ("ipu " ++ version)
  | error => line ("error: " ++ error.kind) ++ usage

/-- How a process ends: its exit code and what it printed. -/
structure Exit where
  code : Nat
  output : String
  errors : String
deriving DecidableEq

namespace Exit

def ofError (error : CommandError) : Exit :=
  ⟨error.exitCode, "", errorText error⟩

def ofResult (result : RunResult) : Exit :=
  ⟨result.exitCode, resultText result, ""⟩

end Exit

namespace Machine

/-- Make the log file of a kind, unless it is there already; failing that there is none. -/
def openLog (machine : Machine) (settings : Settings) (kind : ExecutionKind) : Machine :=
  let path := Files.Path.ofText (logPath settings.logPath kind)
  match machine.tree.read path with
  | .ok _ => machine
  | .error _ =>
      match machine.tree.write .empty path with
      | .ok tree => { machine with tree := tree }
      | .error _ => machine

/-- Obey a command; gives how the process ends and the files after it. -/
def obey (machine : Machine) (settings : Settings) (supply : Supply) :
    Command → Exit × Files.Tree
  | .answer assignments =>
      match machine.recordAnswers settings assignments with
      | .error error => (.ofError (.answers error), machine.tree)
      | .ok tree => (⟨0, recordedText assignments.length settings.answersPath, ""⟩, tree)
  | .run kind arguments =>
      let executed := (machine.openLog settings kind).execute settings supply kind arguments
      match executed.result with
      | .error error => (.ofError error, executed.tree)
      | .ok result => (.ofResult result, executed.tree)

end Machine

end PhasedUpgrade.Upgrade
