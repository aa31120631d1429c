import PhasedUpgrade.Collections.NameMap
import PhasedUpgrade.Json.Record

/-!
# Configurations

What an execution was asked to do, as it is kept for the time after a reboot.
-/

namespace PhasedUpgrade

open Json (Source)

structure Flags where
  skipSubscription : Bool
  debug : Bool
  verbose : Bool
  enabledRepositories : List String
  whitelist : List String
deriving DecidableEq, Inhabited

/-- The request of an execution, with the environment that was captured for it. -/
structure Configuration where
  sourceVersion : String
  targetVersion : String
  architecture : String
  flags : Flags
  env : NameMap String
deriving DecidableEq, Inhabited

namespace Flags

def none : Flags := ⟨false, false, false, [], []⟩

def fieldNames : List String :=
  ["no_rhsm", "debug", "verbose", "enable_repos", "whitelist_experimental"]

def toJson (flags : Flags) : Json :=
  .object [("no_rhsm", .boolean flags.skipSubscription), ("debug", .boolean flags.debug),
    ("verbose", .boolean flags.verbose),
    ("enable_repos", .array (flags.enabledRepositories.map .string)),
    ("whitelist_experimental", .array (flags.whitelist.map .string))]

/-- Read flags; those that are left out are not set. -/
def ofSource? (budget : Nat) (source : Source) : Option Flags := do
  let record ← source.record? fieldNames budget
  let texts := Source.list? (fun _ => Source.string?) record.budget
  return {
    skipSubscription := ← record.defaulted "no_rhsm" false Source.boolean?
    debug := ← record.defaulted "debug" false Source.boolean?
    verbose := ← record.defaulted "verbose" false Source.boolean?
    enabledRepositories := ← record.defaulted "enable_repos" [] texts
    whitelist := ← record.defaulted "whitelist_experimental" [] texts }

end Flags

namespace Configuration

def fieldNames : List String :=
  ["source_version", "target_version", "architecture", "flags", "env"]

def envJson (env : NameMap String) : Json :=
  .object (env.entries.map fun entry => (entry.1, .string entry.2))

def toJson (configuration : Configuration) : Json :=
  .object [("source_version", .string configuration.sourceVersion),
    ("target_version", .string configuration.targetVersion),
    ("architecture", .string configuration.architecture),
    ("flags", configuration.flags.toJson), ("env", envJson configuration.env)]

def ofSource? (budget : Nat) (source : Source) : Option Configuration := do
  let record ← source.record? fieldNames budget
  return {
    sourceVersion := ← record.required "source_version" Source.string?
    targetVersion := ← record.required "target_version" Source.string?
    architecture := ← record.required "architecture" Source.string?
    flags := ← record.defaulted "flags" .none (Flags.ofSource? record.budget)
    env := ← record.defaulted "env" ∅ (Source.textMap? record.budget) }

end Configuration

end PhasedUpgrade
