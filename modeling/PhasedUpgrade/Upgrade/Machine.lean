import PhasedUpgrade.Answers.File
import PhasedUpgrade.Execution.Environment
import PhasedUpgrade.Upgrade.Arguments
import PhasedUpgrade.Upgrade.Release
import PhasedUpgrade.Upgrade.Settings

/-!
# Machines

What the program finds on the machine that it runs on, and the configuration that it makes of that
for a new execution.
-/

namespace PhasedUpgrade.Upgrade

open Files

/-- The files of a machine, the variables of the process and the architecture. -/
structure Machine where
  tree : Tree
  environment : List (String × String)
  architecture : String

namespace Machine

def readText (machine : Machine) (path : String) : Except Fault String :=
  machine.tree.readText (Path.ofText path)

/-- The settings in the file at a path; if it may be missing, the shipped ones stand in for it. -/
def settings (machine : Machine) (path : String) (required : Bool) : Except Refusal Settings :=
  match machine.readText path with
  | .error fault =>
      if fault = .notFound ∧ !required then .ok .shipped
      else .error (.precondition ("cannot read configuration " ++ path ++ ": " ++ fault.message))
  | .ok text =>
      (Settings.ofText text).mapError fun error =>
        .precondition ("invalid configuration " ++ path ++ ": " ++ error.message)

def release (machine : Machine) (path : String) : Except Refusal Release :=
  match machine.readText path with
  | .error fault => .error (.precondition ("cannot read " ++ path ++ ": " ++ fault.message))
  | .ok text =>
      (Release.ofText text).mapError fun error =>
        .precondition ("invalid " ++ path ++ ": " ++ error.message)

/--
The configuration of a new execution. The target is the one of the arguments, else the one of the
captured variables, else the default one. What the arguments imply is captured with the variables.
-/
def configuration (machine : Machine) (settings : Settings) (arguments : Arguments) :
    Except Refusal Configuration := do
  let release ← machine.release settings.releasePath
  let env := (Environment.capture machine.environment).insertAll arguments.impliedVariables
  let requested := arguments.target <|> env.get? "IPU_TARGET_VERSION"
  let target ← settings.targetFor release.version requested
  return {
    sourceVersion := release.version
    targetVersion := target
    architecture := machine.architecture
    flags := arguments.flags
    env := env.insert "IPU_TARGET_VERSION" target }

end Machine

end PhasedUpgrade.Upgrade
