import PhasedUpgrade.Display.Run
import PhasedUpgrade.Upgrade.Console

/-!
# The upgrade as data

Settings, commands and their errors, as they are shown to others.
-/

namespace PhasedUpgrade

namespace Upgrade

def Settings.toJson (settings : Settings) : Json :=
  .object [("store_dir", .string settings.storePath), ("log_dir", .string settings.logPath),
    ("answerfile", .string settings.answersPath), ("os_release", .string settings.releasePath),
    ("require_root", .boolean settings.requiresRoot),
    ("upgrade_paths", .object (settings.paths.entries.map fun (source, targets) =>
      (source, Display.texts targets))),
    ("default_target", Configuration.envJson settings.defaultTargets)]

def SettingsError.toJson : SettingsError → Json
  | notToml => Display.error "Syntax" none
  | misfit cause => Display.error "Config" cause.message

def Release.toJson (release : Release) : Json :=
  .object [("id", .string release.id), ("name", .string release.name),
    ("version_id", .string release.version)]

def Arguments.toJson (arguments : Arguments) : Json :=
  .object [("resume", .boolean arguments.resume), ("debug", .boolean arguments.debug),
    ("verbose", .boolean arguments.verbose), ("no_rhsm", .boolean arguments.skipSubscription),
    ("enable_repos", Display.texts arguments.enabledRepositories),
    ("target", .ofText? arguments.target),
    ("whitelist_experimental", Display.texts arguments.whitelist)]

def Command.toJson : Command → Json
  | run kind arguments =>
      .object [("command", .string kind.name), ("args", arguments.toJson),
        ("implied_env", .array (arguments.impliedVariables.map fun (name, value) =>
          .array [.string name, .string value]))]
  | answer assignments =>
      .object [("command", .string "answer"), ("sections", Display.texts assignments)]

def withExitCode (error : Json) (code : Nat) : Json :=
  match error with
  | .object fields => .object (fields ++ [("exit_code", .integer code)])
  | other => other

def CommandError.toJson : CommandError → Json
  | refused cause => withExitCode cause.toJson (refused cause).exitCode
  | answers cause => withExitCode cause.toJson cause.exitCode
  | run cause => cause.toJson

end Upgrade

def CommandLine.UsageError.toJson (error : UsageError) : Json :=
  Upgrade.withExitCode (Display.error error.kind none) error.exitCode

end PhasedUpgrade
