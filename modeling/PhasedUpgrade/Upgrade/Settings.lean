import PhasedUpgrade.Run.Error
import PhasedUpgrade.Toml.Document
import PhasedUpgrade.Toml.Typed
import PhasedUpgrade.Upgrade.Actors

/-!
# Settings of a machine

Where a machine keeps the records of its upgrades, and which upgrades it supports. Settings are read
from a TOML document; what it leaves out stays as shipped, and what it should not hold is refused.
-/

namespace PhasedUpgrade.Upgrade

open Reading (Misfit)

structure Settings where
  storePath : String
  logPath : String
  answersPath : String
  /-- The file that identifies the running system. -/
  releasePath : String
  requiresRoot : Bool
  paths : Paths
  /-- The target version for each source version, if none is asked for. -/
  defaultTargets : NameMap String
deriving DecidableEq

inductive SettingsError where
  | notToml
  | misfit (cause : Misfit)
deriving DecidableEq

def SettingsError.message : SettingsError → String
  | notToml => "not a TOML document"
  | misfit cause => cause.message

namespace Settings

def shipped : Settings where
  storePath := "/var/lib/ipu"
  logPath := "/var/log/ipu"
  answersPath := "/var/lib/ipu/answerfile.toml"
  releasePath := "/etc/os-release"
  requiresRoot := true
  paths := .ofList [("8.10", ["9.4", "9.6"]), ("9.6", ["10.0"])]
  defaultTargets := .ofList [("8.10", "9.6"), ("9.6", "10.0")]

def pathVariable : String := "IPU_CONFIG"

/-- The file of the settings if no variable names another one; it may be missing. -/
def usualPath : String := "/etc/ipu/ipu.toml"

/-- The keys of a document in the order in which messages list them. -/
def keys : List String :=
  ["store_dir", "log_dir", "answerfile", "os_release", "require_root", "upgrade_paths",
    "default_target"]

def take (settings : Settings) : String × Toml.Value → Except Misfit Settings
  | ("store_dir", value) => return { settings with storePath := ← value.readPath }
  | ("log_dir", value) => return { settings with logPath := ← value.readPath }
  | ("answerfile", value) => return { settings with answersPath := ← value.readPath }
  | ("os_release", value) => return { settings with releasePath := ← value.readPath }
  | ("require_root", value) => return { settings with requiresRoot := ← value.readBoolean }
  | ("upgrade_paths", value) => do
      let paths ← value.readMap (Toml.Value.readList Toml.Value.readString)
      return { settings with paths := paths }
  | ("default_target", value) => do
      return { settings with defaultTargets := ← value.readMap Toml.Value.readString }
  | (key, _) => throw (.unknownField key keys)

/-- The settings of a document; of several faults the first one is reported. -/
def ofText (text : String) : Except SettingsError Settings :=
  match Toml.read? text with
  | none => .error .notToml
  | some entries => (entries.foldlM take shipped).mapError .misfit

/-- The version to upgrade to: the one asked for, or the default one. -/
def targetFor (settings : Settings) (source : String) (requested : Option String) :
    Except Refusal String :=
  match requested <|> settings.defaultTargets.get? source with
  | some target => .ok target
  | none => .error (.precondition
      ("no default target for source version " ++ source ++ "; use --target"))

end Settings

end PhasedUpgrade.Upgrade
