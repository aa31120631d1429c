import PhasedUpgrade.Proofs.Answers.File
import PhasedUpgrade.Proofs.Store.Writable
import PhasedUpgrade.Proofs.Upgrade.Configuration
import PhasedUpgrade.Proofs.Upgrade.Stages

/-!
# The upgrade from end to end

On a machine whose system is known and whose records can be written, a fresh run ends as the support
for the machine, the asked-for path and the enabled repositories tell.
-/

namespace PhasedUpgrade

open Files

theorem RunResult.exitCode_eq_one_iff {result : RunResult} :
    result.exitCode = 1 ↔ result.outcome.isFailure = true := by
  unfold exitCode
  cases result.outcome.isFailure <;> simp

theorem EndedRun.visit_mem_steps {σ : Type} {run : EndedRun σ} {visit : Visit}
    (mem : visit ∈ run.visits) : .visit visit ∈ run.steps := by
  obtain ⟨step, taken, same⟩ := List.mem_filterMap.mp mem
  cases step <;> cases same
  exact taken

def Upgrade.Arguments.plain : Arguments :=
  ⟨false, false, false, false, [], none, []⟩

namespace Upgrade.Machine

variable {machine : Machine} {settings : Settings} {arguments : Arguments}
  {configuration : Configuration} {answers : Answers}

theorem hindrances_factsOf (h : machine.configuration settings arguments = .ok configuration)
    (paths : Paths) :
    hindrances paths (factsOf configuration) =
      (if supportedArchitectures.contains machine.architecture then 0 else 1) +
        if paths.supports configuration.sourceVersion configuration.targetVersion then 0
        else 1 := by
  rw [hindrances, targetVersion_factsOf h, ← (configuration_eq_ok h).1]
  rfl

theorem targetRepositories_factsOf_eq_nil_iff
    (h : machine.configuration settings arguments = .ok configuration) :
    targetRepositories (factsOf configuration) = [] ↔
      machine.Skips arguments ∧ machine.EnablesNone arguments := by
  rw [targetRepositories_eq_nil_iff, skipSubscription_factsOf_iff h,
    enabledRepositories_factsOf_iff h]

theorem undertaking_fresh (kind : ExecutionKind) (fresh : arguments.resume = false)
    (snapshot : machine.configuration settings arguments = .ok configuration)
    (loaded : Answers.load machine.tree settings.answersPath = .ok answers) :
    machine.undertaking settings kind arguments = .ok {
      setting := ⟨workflow, registry settings.paths⟩
      request := .fresh kind configuration
      options := ⟨⟨none, .ofList arguments.whitelist⟩, lastPhase kind⟩
      answers := answers } := by
  rw [undertaking, loaded, fresh, snapshot]
  rfl

/-- The result of a run is that of the command, if the answers can be written behind it. -/
theorem execute_of_run {supply : Supply} {kind : ExecutionKind} {undertaking : Undertaking}
    (undertaken : machine.undertaking settings kind arguments = .ok undertaking)
    {ended : EndedRun DirectoryStore} (ran : undertaking.setting.run supply undertaking.request
      undertaking.options undertaking.answers (machine.store settings) = ended)
    {result : RunResult} (came : ended.result = .ok result) {after : Tree}
    (saved : (ended.answers undertaking.answers).save ended.store.tree settings.answersPath =
      .ok after) :
    machine.execute settings supply kind arguments = ⟨.ok result, ended.bindings, after⟩ := by
  rw [execute, undertaken]
  simp only [ran, came, saved]

/-- A fresh run of the upgrade enters the phases and ends as its facts let expect. -/
theorem run_fresh {supply : Supply}
    (writable : (machine.store settings).Admits supply.executionId) (kind : ExecutionKind)
    (configuration : Configuration) (whitelist : NameSet) (answers : Answers) :
    let setting : Setting := ⟨workflow, registry settings.paths⟩
    let expected := expectedEnd settings.paths (factsOf configuration) kind
    ∃ result steps tree, setting.run supply (.fresh kind configuration)
        ⟨⟨none, whitelist⟩, lastPhase kind⟩ answers (machine.store settings) =
          ⟨.ok result, steps, { machine.store settings with tree := tree }⟩ ∧
      result.outcome = expected.2 ∧ result.phases.map PhaseSummary.phase = expected.1 ∧
      (∀ visit, .visit visit ∈ steps → visit.phase ∈ expected.1) ∧
      ∀ path, (machine.store settings).Avoids supply.executionId path →
        tree.find path = machine.tree.find path := by
  intro setting expected
  have foreseen := (foreseen_stages settings.paths configuration).take (lastPlace kind)
  have planned : setting.plan (RunOptions.filtersFor ⟨⟨none, whitelist⟩, lastPhase kind⟩
      configuration) 0 (lastPlace kind) = _ :=
    plan_eq settings.paths _ (lastPlace kind)
  rw [← planned_stages, ← List.map_take] at planned
  obtain ⟨account, result, made, ended, outcome, names, visits⟩ := Setting.account_foreseen
    (stopPlace_lastPhase kind) planned foreseen
    ⟨rfl, Bus.carries_nil _ _, Bus.carries_nil _ _⟩ supply kind answers
  rw [ending_eq_expectedEnd] at outcome names visits
  obtain ⟨_, progress⟩ := Setting.account_progress made (List.prefix_refl _)
  obtain ⟨tree, carried⟩ := DirectoryStore.performAll_of_admits writable progress.own
  refine ⟨result, account.steps, tree, ?_, outcome, names, visits, fun path avoids => ?_⟩
  · have carried : RunStep.performAll account.steps (setting.entry supply
        (.fresh kind configuration) (machine.store settings)).2 = _ := carried
    rw [Setting.run_eq rfl made, Account.perform, carried, ended]
  · have own : ∀ step ∈ account.steps, ∀ name, step.concerns name →
        (machine.store settings).Avoids name path := by
      intro step mem name concerns
      obtain rfl : name = supply.executionId := progress.own step mem name concerns
      exact avoids
    have kept := DirectoryStore.find_performAll own
    rwa [carried] at kept

/--
A fresh run on a machine whose system is known, with answers that can be read and records that can
be written. What is not supported of the architecture and the path of the upgrade inhibits it behind
its checks. If subscriptions are skipped, by an argument or by a variable, and no repository is
enabled, it is inhibited behind its reports. Otherwise an upgrade goes on to its reboot, and a run
that only checks stops behind the reports. No later phase is entered, and the exit code tells
whether the run was inhibited.
-/
theorem execute_fresh {supply : Supply} (kind : ExecutionKind) (fresh : arguments.resume = false)
    (snapshot : machine.configuration settings arguments = .ok configuration)
    (loaded : Answers.load machine.tree settings.answersPath = .ok answers)
    (writable : (machine.store settings).Admits supply.executionId) :
    let inhibitors := (if supportedArchitectures.contains machine.architecture then 0 else 1) +
      if settings.paths.supports configuration.sourceVersion configuration.targetVersion then 0
      else 1
    ∃ undertaking result, machine.undertaking settings kind arguments = .ok undertaking ∧
      let run := undertaking.setting.run supply undertaking.request undertaking.options
        undertaking.answers (machine.store settings)
      run.result = .ok result ∧
      ((machine.store settings).Avoids supply.executionId (Path.ofText settings.answersPath) →
        (machine.execute settings supply kind arguments).result = .ok result) ∧
      (0 < inhibitors → result.outcome = .inhibited "Checks" inhibitors ∧
        result.phases.map PhaseSummary.phase = ["FactsCollection", "Checks"]) ∧
      (inhibitors = 0 → machine.Skips arguments ∧ machine.EnablesNone arguments →
        result.outcome = .inhibited "Reports" 1 ∧ result.phases.map PhaseSummary.phase =
          ["FactsCollection", "Checks", "TargetTransactionFactsCollection", "Reports"]) ∧
      (inhibitors = 0 → ¬ (machine.Skips arguments ∧ machine.EnablesNone arguments) →
        match kind with
        | .preupgrade =>
            result.outcome = .stopped "Reports" ∧ result.phases.map PhaseSummary.phase =
              ["FactsCollection", "Checks", "TargetTransactionFactsCollection", "Reports"]
        | .upgrade =>
            result.outcome = .awaitingReboot "InterimPreparation" true ∧
            result.phases.map PhaseSummary.phase =
              ["FactsCollection", "Checks", "TargetTransactionFactsCollection", "Reports",
                "Download", "InterimPreparation"]) ∧
      (result.exitCode = 1 ↔ ∃ phase count, result.outcome = .inhibited phase count) ∧
      ∀ visit ∈ run.visits, visit.phase ∈ result.phases.map PhaseSummary.phase := by
  intro inhibitors
  have hindered := hindrances_factsOf snapshot settings.paths
  have bare := targetRepositories_factsOf_eq_nil_iff snapshot
  have undertaken := undertaking_fresh kind fresh snapshot loaded
  obtain ⟨result, steps, tree, ran, outcome, names, visits, kept⟩ := run_fresh writable kind
    configuration (.ofList arguments.whitelist) answers
  refine ⟨_, result, undertaken, ?_⟩
  intro run
  have ran : run = ⟨.ok result, steps, { machine.store settings with tree := tree }⟩ := ran
  refine ⟨by rw [ran], fun avoids => ?_, ?_⟩
  · have admits : tree.Admits (Path.ofText settings.answersPath) := by
      unfold Tree.Admits
      rw [kept _ avoids]
      exact Answers.admits_of_load loaded
    obtain ⟨after, saved⟩ := Answers.exists_save_of_admits admits (run.answers answers)
    rw [ran] at saved
    exact congrArg Executed.result (execute_of_run undertaken ran rfl saved)
  rw [RunResult.exitCode_eq_one_iff, names, outcome, isFailure_expectedEnd]
  refine ⟨fun some => ?_, fun none bareness => ?_, fun none enabled => ?_, Iff.rfl,
    fun visit mem => ?_⟩
  · rw [expectedEnd_of_hindered (hindered ▸ some), hindered]
    exact ⟨rfl, rfl⟩
  · rw [expectedEnd_of_bare (hindered.trans none) (bare.mpr bareness)]
    exact ⟨rfl, rfl⟩
  · rw [expectedEnd_of_enabled (hindered.trans none) (mt bare.mp enabled)]
    cases kind <;> exact ⟨rfl, rfl⟩
  · rw [ran] at mem
    exact visits visit (EndedRun.visit_mem_steps mem)

/-- A supported machine whose variables skip subscriptions and enable only blank repositories. -/
def withoutRepositories : Machine where
  tree := .directory [("etc", .directory [("os-release",
    .file "ID=\"rhel\"\nVERSION_ID=\"8.10\"\n".toUTF8)])]
  environment := [("IPU_NO_RHSM", "yes"), ("IPU_ENABLE_REPOS", " , ")]
  architecture := "x86_64"

theorem release_withoutRepositories :
    withoutRepositories.release Settings.shipped.releasePath = .ok ⟨"rhel", "", "8.10"⟩ := by
  have read : withoutRepositories.readText Settings.shipped.releasePath =
      .ok "ID=\"rhel\"\nVERSION_ID=\"8.10\"\n" :=
    Tree.readText_of_file rfl
  rw [Machine.release, read]
  rfl

/-- An upgrade of a machine that has nothing to install from is inhibited behind its reports. -/
theorem execute_fresh_without_repositories :
    let supply : Supply := ⟨fun _ => .epoch, fun _ => default, default⟩
    ∃ result, (withoutRepositories.execute .shipped supply .upgrade .plain).result = .ok result ∧
      result.outcome = .inhibited "Reports" 1 ∧ result.exitCode = 1 ∧
      result.phases.map PhaseSummary.phase =
        ["FactsCollection", "Checks", "TargetTransactionFactsCollection", "Reports"] := by
  intro supply
  obtain ⟨configuration, snapshot, source, target⟩ : ∃ configuration,
      withoutRepositories.configuration .shipped .plain = .ok configuration ∧
        configuration.sourceVersion = "8.10" ∧ configuration.targetVersion = "9.6" := by
    unfold Machine.configuration
    rw [release_withoutRepositories]
    exact ⟨_, rfl, rfl, rfl⟩
  have writable : (withoutRepositories.store .shipped).Admits supply.executionId :=
    fun _ _ => .inl rfl
  have avoids : (withoutRepositories.store .shipped).Avoids default
      (Path.ofText Settings.shipped.answersPath) := by
    unfold DirectoryStore.Avoids Tree.Apart
    decide
  have bare : withoutRepositories.Skips .plain ∧ withoutRepositories.EnablesNone .plain := by
    refine ⟨.inr (by decide), rfl, fun value captured => ?_⟩
    obtain rfl : " , " = value := Option.some.inj captured
    decide
  obtain ⟨_, result, _, _, executed, _, inhibited, _, code, _⟩ :=
    execute_fresh .upgrade rfl snapshot rfl writable
  rw [source, target] at inhibited
  obtain ⟨outcome, names⟩ := inhibited (by decide) bare
  exact ⟨result, executed avoids, outcome, code.mpr ⟨_, _, outcome⟩, names⟩

end Upgrade.Machine

end PhasedUpgrade
