import PhasedUpgrade.Collections.NameMap

/-!
# The environment of an execution

Variables with the prefix `IPU_` are captured when an execution starts and set again when it is
resumed. A variable under a name that has been given up is set under the name that replaced it,
unless that one was captured too.
-/

namespace PhasedUpgrade.Environment

/-- How the names of captured variables begin. -/
def capturedPrefix : String := "IPU_"

/-- Names that were given up, each with the name that replaced it. -/
def renames : List (String × String) :=
  [("IPU_DEVEL_SKIP_RHSM", "IPU_NO_RHSM"),
    ("IPU_DEVEL_TARGET_RELEASE", "IPU_TARGET_VERSION"),
    ("IPU_DEVEL_SOURCE_PRODUCT_TYPE", "IPU_SOURCE_PRODUCT_TYPE")]

def isCaptured (name : String) : Bool :=
  capturedPrefix.toList.isPrefixOf name.toList

/-- The captured variables; of several bindings of a name the last counts. -/
def capture (bindings : List (String × String)) : NameMap String :=
  .ofList (bindings.filter fun binding => isCaptured binding.1)

/-- Move the value under a given-up name to the name that replaced it, if that one is free. -/
def rename (env : NameMap String) (old new : String) : NameMap String :=
  match env.get? old with
  | none => env
  | some value =>
      let rest := env.erase old
      if rest.contains new then rest else rest.insert new value

/-- The variables to set on a resume. -/
def restorable (captured : NameMap String) : NameMap String :=
  renames.foldl (fun env (old, new) => rename env old new) captured

end PhasedUpgrade.Environment
