import PhasedUpgrade.Proofs.Collections.Fallible
import PhasedUpgrade.Proofs.Collections.Lookup
import PhasedUpgrade.Proofs.Upgrade.Actors
import PhasedUpgrade.Upgrade.Machine

/-!
# What an upgrade is asked for

The arguments and the captured variables of a new execution decide together what its facts are.
-/

namespace PhasedUpgrade

namespace Upgrade

theorem addMissing_eq_nil_iff {repositories more : List String} :
    addMissing repositories more = [] ↔ repositories = [] ∧ more = [] := by
  unfold addMissing
  induction more generalizing repositories with
  | nil => simp
  | cons name rest ih =>
      rw [List.foldl_cons, ih]
      split
      · rename_i known
        simp only [List.cons_ne_nil, and_false, iff_false]
        rintro ⟨rfl, -⟩
        simp at known
      · simp

theorem Arguments.implied_cases {arguments : Arguments} {pair : String × String}
    (mem : pair ∈ arguments.impliedVariables) :
    pair.1 = "IPU_DEBUG" ∨ pair.1 = "IPU_VERBOSE" ∨
      pair.1 = "IPU_NO_RHSM" ∧ arguments.skipSubscription = true ∨
      pair.1 = "IPU_ENABLE_REPOS" ∧ arguments.enabledRepositories ≠ [] ∨
      pair.1 = "IPU_TARGET_VERSION" := by
  simp only [impliedVariables, List.mem_append, Option.mem_toList, Option.map_eq_some_iff] at mem
  rcases mem with (((debug | verbose) | skip) | repositories) | ⟨target, _, rfl⟩
  · split at debug <;> simp_all
  · split at verbose <;> simp_all
  · split at skip <;> simp_all
  · split at repositories <;> simp_all
  · simp

theorem Arguments.skip_of_implied {arguments : Arguments} {pair : String × String}
    (mem : pair ∈ arguments.impliedVariables) (named : pair.1 = "IPU_NO_RHSM") :
    arguments.skipSubscription = true := by
  have cases := implied_cases mem
  rw [named] at cases
  simpa using cases

theorem Arguments.repositories_of_implied {arguments : Arguments} {pair : String × String}
    (mem : pair ∈ arguments.impliedVariables) (named : pair.1 = "IPU_ENABLE_REPOS") :
    arguments.enabledRepositories ≠ [] := by
  have cases := implied_cases mem
  rw [named] at cases
  simpa using cases

def Machine.captured? (machine : Machine) (name : String) : Option String :=
  (Environment.capture machine.environment).get? name

/-- Whether subscriptions are to be skipped, by the arguments or by the captured variable. -/
def Machine.Skips (machine : Machine) (arguments : Arguments) : Prop :=
  arguments.skipSubscription = true ∨
    machine.captured? "IPU_NO_RHSM" ∈ [some "1", some "true", some "yes"]

/-- Whether no repository is enabled, neither by the arguments nor by the captured variable. -/
def Machine.EnablesNone (machine : Machine) (arguments : Arguments) : Prop :=
  arguments.enabledRepositories = [] ∧
    ∀ value, machine.captured? "IPU_ENABLE_REPOS" = some value →
      ∀ item ∈ Text.pieces ',' value, Text.trim item = ""

namespace Machine

variable {machine : Machine} {settings : Settings} {arguments : Arguments}
  {configuration : Configuration}

/-- What the configuration of a new execution is made of. -/
theorem configuration_eq_ok (h : machine.configuration settings arguments = .ok configuration) :
    configuration.architecture = machine.architecture ∧ configuration.flags = arguments.flags ∧
      configuration.env =
        ((Environment.capture machine.environment).insertAll arguments.impliedVariables).insert
          "IPU_TARGET_VERSION" configuration.targetVersion := by
  unfold Machine.configuration at h
  obtain ⟨release, _, h⟩ := Except.exists_of_bind_eq_ok h
  obtain ⟨target, _, h⟩ := Except.exists_of_bind_eq_ok h
  cases h
  exact ⟨rfl, rfl, rfl⟩

/-- Arguments that leave a matter open leave its variable as it was captured. -/
theorem captured_of_unimplied (h : machine.configuration settings arguments = .ok configuration)
    {name : String} (other : name ≠ "IPU_TARGET_VERSION")
    (apart : ∀ pair ∈ arguments.impliedVariables, pair.1 ≠ name) :
    configuration.env.get? name = machine.captured? name := by
  rw [(configuration_eq_ok h).2.2, NameMap.get?_insert, if_neg other,
    NameMap.get?_insertAll_of_ne apart]
  rfl

theorem env_skip (h : machine.configuration settings arguments = .ok configuration)
    (silent : arguments.skipSubscription = false) :
    configuration.env.get? "IPU_NO_RHSM" = machine.captured? "IPU_NO_RHSM" := by
  apply captured_of_unimplied h (by decide)
  intro pair mem named
  rw [Arguments.skip_of_implied mem named] at silent
  cases silent

theorem env_repositories (h : machine.configuration settings arguments = .ok configuration)
    (silent : arguments.enabledRepositories = []) :
    configuration.env.get? "IPU_ENABLE_REPOS" = machine.captured? "IPU_ENABLE_REPOS" := by
  apply captured_of_unimplied h (by decide)
  intro pair mem named
  exact Arguments.repositories_of_implied mem named silent

theorem targetVersion_factsOf (h : machine.configuration settings arguments = .ok configuration) :
    (factsOf configuration).targetVersion = configuration.targetVersion := by
  have bound : configuration.env.get? "IPU_TARGET_VERSION" = some configuration.targetVersion := by
    rw [(configuration_eq_ok h).2.2, NameMap.get?_insert, if_pos rfl]
  show (configuration.env.get? "IPU_TARGET_VERSION").getD configuration.targetVersion = _
  rw [bound]
  rfl

theorem skipSubscription_factsOf_iff
    (h : machine.configuration settings arguments = .ok configuration) :
    (factsOf configuration).skipSubscription = true ↔ machine.Skips arguments := by
  show (configuration.flags.skipSubscription || isSet (configuration.env.get? "IPU_NO_RHSM")) =
    true ↔ _
  rw [(configuration_eq_ok h).2.1]
  show (arguments.skipSubscription || _) = true ↔ arguments.skipSubscription = true ∨ _
  cases asked : arguments.skipSubscription with
  | true => simp
  | false =>
      rw [env_skip h asked]
      simp [isSet, or_assoc]

theorem enabledRepositories_factsOf_iff
    (h : machine.configuration settings arguments = .ok configuration) :
    (factsOf configuration).enabledRepositories = [] ↔ machine.EnablesNone arguments := by
  show addMissing configuration.flags.enabledRepositories
    (((configuration.env.get? "IPU_ENABLE_REPOS").map Text.commaItems).getD []) = [] ↔ _
  rw [addMissing_eq_nil_iff, (configuration_eq_ok h).2.1]
  apply and_congr_right
  intro asked
  rw [env_repositories h asked]
  cases machine.captured? "IPU_ENABLE_REPOS" with
  | none => simp
  | some value => simp [Text.commaItems]

end Machine

end Upgrade

end PhasedUpgrade
