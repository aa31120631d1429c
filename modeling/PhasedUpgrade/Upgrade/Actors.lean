import PhasedUpgrade.Actor.Registry
import PhasedUpgrade.Text.Split
import PhasedUpgrade.Upgrade.Facts
import PhasedUpgrade.Upgrade.Phases

/-!
# The actors of the system upgrade

The actors that every installation ships: the facts about the upgrade as it was asked for, checks
that may inhibit it, the list of target repositories, and a summary of the reports.
-/

namespace PhasedUpgrade.Upgrade

/-- The target versions that a source version may be upgraded to. -/
abbrev Paths : Type := NameMap (List String)

namespace Paths

def targets (paths : Paths) (source : String) : List String :=
  (paths.get? source).getD []

def supports (paths : Paths) (source target : String) : Bool :=
  (paths.targets source).contains target

end Paths

def supportedArchitectures : List String :=
  ["x86_64", "aarch64", "ppc64le", "s390x"]

def isSet (value : Option String) : Bool :=
  value = some "1" || value = some "true" || value = some "yes"

/-- Repositories with further ones behind them, none of which is named twice. -/
def addMissing (repositories : List String) (more : List String) : List String :=
  more.foldl (fun all name => if all.contains name then all else all ++ [name]) repositories

/-- The upgrade as asked for: the captured variables complete the configuration. -/
def resolve (view : View) : Facts :=
  let configuration := view.execution.configuration
  { sourceVersion := configuration.sourceVersion
    targetVersion := (view.env? "IPU_TARGET_VERSION").getD configuration.targetVersion
    architecture := configuration.architecture
    skipSubscription :=
      configuration.flags.skipSubscription || isSet (view.env? "IPU_NO_RHSM")
    enabledRepositories := addMissing configuration.flags.enabledRepositories
      (((view.env? "IPU_ENABLE_REPOS").map Text.commaItems).getD []) }

/-- The facts on the bus; without them an actor has nothing to do. -/
def requiredFacts (view : View) : Task Facts := do
  match ← Task.consumeOne view.actor Facts.model with
  | some facts => return facts
  | none => Task.stop (.recoverable "no IPUConfig message on the bus")

def architectureReport? (facts : Facts) : Option Report :=
  if supportedArchitectures.contains facts.architecture then none
  else some <|
    ((Report.inhibitor "Unsupported architecture"
      ("The upgrade is not supported on " ++ facts.architecture ++ " machines")).withGroup
        .sanity).withKey "check_architecture.unsupported"

def pathReport? (paths : Paths) (facts : Facts) : Option Report :=
  let targets := paths.targets facts.sourceVersion
  if targets.contains facts.targetVersion then none
  else
    let hint :=
      if targets.isEmpty then
        "Version " ++ facts.sourceVersion ++ " cannot be upgraded in place"
      else "Choose one of: " ++ ", ".intercalate targets
    some <|
      (((Report.inhibitor "Unsupported upgrade path"
        ("Upgrade from " ++ facts.sourceVersion ++ " to " ++ facts.targetVersion ++
          " is not supported")).withGroup .sanity).withRemediation hint).withKey
            "check_upgrade_path.unsupported"

def subscriptionReport : Report :=
  (((Report.informational "Skipped using subscription-manager"
    "Target repositories must be provided by the operator").withSeverity .low).withGroup
      .repository).withKey "check_skip_rhsm.skipped"

def repositoriesReport : Report :=
  (((Report.inhibitor "No target repositories"
    "subscription-manager is skipped and no repository was enabled").withGroup
      .repository).withRemediation "Pass --enablerepo for every target repository").withKey
        "target_repositories.empty"

/-- What stands in front of the first point of a version. -/
def majorVersion (version : String) : String :=
  (Text.pieces '.' version).headD version

/-- The subscribed repositories of the target, unless they are skipped, and the enabled ones. -/
def targetRepositories (facts : Facts) : List String :=
  let major := majorVersion facts.targetVersion
  (if facts.skipSubscription then [] else ["baseos-" ++ major, "appstream-" ++ major]) ++
    facts.enabledRepositories

/-- An actor of the upgrade that takes part in the phase with a tag. -/
def actor (name description phaseTag : String) (consumes produces : List String)
    (behave : View → Task Unit) : Actor where
  name := name
  description := description
  consumes := .ofList consumes
  produces := .ofList produces
  tags := .ofList [workflowTag, phaseTag]
  experimental := false
  behave := behave

def factsActor : Actor :=
  actor "ipu_workflow_config" "Resolve the requested upgrade from configuration and environment"
    PhaseTag.facts [] [Facts.model.name] fun view =>
      Task.produceModel Facts.model (resolve view)

def architectureCheck : Actor :=
  actor "check_architecture" "Inhibit the upgrade on unsupported architectures"
    PhaseTag.checks [Facts.model.name] [Report.model.name] fun view => do
      if let some report := architectureReport? (← requiredFacts view) then
        Task.report report

def pathCheck (paths : Paths) : Actor :=
  actor "check_upgrade_path" "Inhibit unsupported source and target combinations"
    PhaseTag.checks [Facts.model.name] [Report.model.name] fun view => do
      if let some report := pathReport? paths (← requiredFacts view) then
        Task.report report

def subscriptionCheck : Actor :=
  actor "check_skip_rhsm" "Report that subscription-manager is skipped"
    PhaseTag.checks [Facts.model.name] [Report.model.name] fun view => do
      let facts ← requiredFacts view
      if facts.skipSubscription then Task.report subscriptionReport
      else Task.stop (.recoverable "subscription-manager is in use")

def repositoriesActor : Actor :=
  actor "target_repositories" "Collect the repositories of the target transaction"
    PhaseTag.targetFacts [Facts.model.name] [TargetRepositories.model.name, Report.model.name]
    fun view => do
      match targetRepositories (← requiredFacts view) with
      | [] => Task.report repositoriesReport
      | repositories => Task.produceModel TargetRepositories.model ⟨repositories⟩

def summaryActor : Actor :=
  actor "report_summary" "Log a summary of the collected reports"
    PhaseTag.reports [Report.model.name] [] fun view => do
      for message in ← Task.consume Report.model.name do
        let _ ← Task.read view.actor Report.model message

/-- The actors in the order of their registration. -/
def actors (paths : Paths) : List Actor :=
  [factsActor, architectureCheck, pathCheck paths, subscriptionCheck, repositoriesActor,
    summaryActor]

def catalog : Except MessageError Catalog :=
  Catalog.builtin.registerAll schemas

def registry (paths : Paths) : Registry :=
  ((Registry.empty (catalog.toOption.getD .builtin)).registerAll (actors paths)).1

end PhasedUpgrade.Upgrade
