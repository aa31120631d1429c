import PhasedUpgrade.Proofs.Dispatch.Whitelist
import PhasedUpgrade.Proofs.Run.Foresight
import PhasedUpgrade.Proofs.Run.Plan
import PhasedUpgrade.Proofs.Upgrade.Actors
import PhasedUpgrade.Upgrade.Actors
import PhasedUpgrade.Upgrade.Commands

/-!
# How the upgrade ends

In no phase of the upgrade an actor feeds another one, so the actors of a phase run in the order of
their names, whatever experimental actors are let through. The checks file a report for the
architecture and one for the path if these are not supported, and the repositories one if there is
nothing to install from. By these reports it is known behind which phase a run ends.
-/

namespace PhasedUpgrade

/-! ## The plan -/

namespace Dispatch

variable {actors ordered : List Actor}

theorem isUndelayed_of_unfed (perm : ordered.Perm actors)
    (unfed : ∀ actor ∈ ordered, ∀ other ∈ ordered, feedsOther actor other = false)
    (sorted : ordered.Pairwise fun actor other => actor.name ≤ other.name) :
    IsUndelayed actors ordered where
  perm := perm
  forward := List.Pairwise.imp_of_mem (fun first second _ => unfed _ second _ first) sorted
  least before next after split actor later _ := by
    subst split
    exact List.rel_of_pairwise_cons (List.pairwise_append.mp sorted).2.1 later

theorem plan_of_unfed {registry : Registry} {phase : Phase} {workflowTag : String}
    {filters : Filters} (perm : ordered.Perm (eligible registry phase workflowTag filters))
    (unfed : ∀ actor ∈ ordered, ∀ other ∈ ordered, feedsOther actor other = false)
    (sorted : ordered.Pairwise fun actor other => actor.name ≤ other.name) :
    plan registry phase workflowTag filters = .ok ordered := by
  have distinct := distinct_eligible registry phase workflowTag filters
  have acyclic (actor : Actor) :
      ¬ Relation.TransGen (Link (eligible registry phase workflowTag filters)) actor actor := by
    intro leads
    obtain ⟨other, link, _⟩ := Relation.TransGen.head'_iff.mp leads
    have apart := unfed actor (perm.mem_iff.mpr link.source) other
      (perm.mem_iff.mpr link.target)
    rw [link.feeds] at apart
    cases apart
  apply planWith_eq_ok_iff.mpr
  constructor
  · by_contra cyclic
    obtain ⟨actor, leads⟩ := (lawful_exhaustive.isCyclic_iff distinct).mp (by simpa using cyclic)
    exact acyclic actor leads
  · exact (isUndelayed_sort distinct acyclic).unique distinct
      (isUndelayed_of_unfed perm unfed sorted)

end Dispatch

namespace Upgrade

def turns (paths : Paths) : List (List Actor) :=
  [[factsActor], [architectureCheck, subscriptionCheck, pathCheck paths], [repositoriesActor],
    [summaryActor], [], [], [], [], []]

def plannedPhases (paths : Paths) : List PlannedPhase :=
  List.zipWith PlannedPhase.mk phases (turns paths)

/-- Who takes part in the phase that actors are planned for, and that they do so in this order. -/
structure TakeTurns (paths : Paths) (whitelist : NameSet) (planned : PlannedPhase) : Prop where
  perm : planned.actors.Perm
    (Dispatch.eligible (registry paths) planned.phase workflowTag ⟨none, whitelist⟩)
  unfed : ∀ actor ∈ planned.actors, ∀ other ∈ planned.actors,
    Dispatch.feedsOther actor other = false
  sorted : planned.actors.Pairwise fun actor other => actor.name ≤ other.name

theorem takeTurns_of_single {paths : Paths} {whitelist : NameSet} {phase : Phase} {actor : Actor}
    (h : Dispatch.eligible (registry paths) phase workflowTag ⟨none, whitelist⟩ = [actor]) :
    TakeTurns paths whitelist ⟨phase, [actor]⟩ where
  perm := .of_eq h.symm
  unfed := by simp [Dispatch.feedsOther_self]
  sorted := List.pairwise_singleton _ _

theorem takeTurns_of_none {paths : Paths} {whitelist : NameSet} {phase : Phase}
    (h : Dispatch.eligible (registry paths) phase workflowTag ⟨none, whitelist⟩ = []) :
    TakeTurns paths whitelist ⟨phase, []⟩ where
  perm := .of_eq h.symm
  unfed := List.forall_mem_nil _
  sorted := .nil

theorem takeTurns_checks (paths : Paths) (whitelist : NameSet) {phase : Phase}
    (h : Dispatch.eligible (registry paths) phase workflowTag ⟨none, whitelist⟩ =
      [architectureCheck, pathCheck paths, subscriptionCheck]) :
    TakeTurns paths whitelist ⟨phase, [architectureCheck, subscriptionCheck, pathCheck paths]⟩ where
  perm := h ▸ .cons _ (.swap _ _ _)
  unfed actor mem other mem' := by
    have kinds : ∀ actor ∈ [architectureCheck, subscriptionCheck, pathCheck paths],
        actor.produces = .ofList [Report.model.name] ∧
          actor.consumes = .ofList [Facts.model.name] := by
      simp only [List.forall_mem_cons]
      exact ⟨⟨rfl, rfl⟩, ⟨rfl, rfl⟩, ⟨rfl, rfl⟩, List.forall_mem_nil _⟩
    rw [Dispatch.feedsOther, Contract.feeds, (kinds actor mem).1, (kinds other mem').2]
    exact Bool.and_false _
  sorted := by
    have first : architectureCheck.name ≤ subscriptionCheck.name := by decide
    have second : subscriptionCheck.name ≤ (pathCheck paths).name := by
      show subscriptionCheck.name ≤ "check_upgrade_path"
      decide
    simp [first, second, String.le_trans first second]

theorem takeTurns (paths : Paths) (whitelist : NameSet) :
    ∀ planned ∈ plannedPhases paths, TakeTurns paths whitelist planned := by
  simp only [plannedPhases, phases, turns, List.zipWith, List.forall_mem_cons]
  exact ⟨takeTurns_of_single rfl, takeTurns_checks paths whitelist rfl, takeTurns_of_single rfl,
    takeTurns_of_single rfl, takeTurns_of_none rfl, takeTurns_of_none rfl, takeTurns_of_none rfl,
    takeTurns_of_none rfl, takeTurns_of_none rfl, List.forall_mem_nil _⟩

theorem plan_eq (paths : Paths) (whitelist : NameSet) (stop : Nat) :
    (⟨workflow, registry paths⟩ : Setting).plan ⟨none, whitelist⟩ 0 stop =
      .ok ((plannedPhases paths).take stop) := by
  have whole : phases = (plannedPhases paths).map PlannedPhase.phase := rfl
  apply Except.mapM_eq_ok_iff.mpr
  show List.Forall₂ _ ((phases.take stop).drop 0) _
  rw [List.drop_zero, whole, ← List.map_take, List.forall₂_map_left_iff, List.forall₂_same]
  intro planned mem
  have turn := takeTurns paths whitelist planned (List.mem_of_mem_take mem)
  have made := Dispatch.plan_of_unfed turn.perm turn.unfed turn.sorted
  show (Dispatch.plan (registry paths) planned.phase workflowTag ⟨none, whitelist⟩ >>= _) = _
  rw [made]
  rfl

end Upgrade

/-! ## The end -/

theorem Stage.Foreseen.take {configuration : Configuration} {before : Bus → Prop}
    {stages : List Stage} (h : Foreseen configuration before stages) (count : Nat) :
    Foreseen configuration before (stages.take count) := by
  induction h generalizing count with
  | nil before =>
      rw [List.take_nil]
      exact .nil before
  | cons turns told _ ih =>
      cases count with
      | zero => exact .nil _
      | succ count => exact .cons turns told (ih count)

namespace Upgrade

/-- The reports of the checks, in the order of the actors that file them. -/
def checkReports (paths : Paths) (facts : Facts) : List Report :=
  (architectureReport? facts).toList ++ (subscriptionReport? facts).toList ++
    (pathReport? paths facts).toList

def allReports (paths : Paths) (facts : Facts) : List Report :=
  checkReports paths facts ++ (repositoriesReport? facts).toList

def stages (paths : Paths) (checks all : List Report) : List Stage :=
  List.zipWith Stage.mk (plannedPhases paths) ([] :: checks :: List.replicate 7 all)

theorem planned_stages (paths : Paths) (checks all : List Report) :
    (stages paths checks all).map Stage.planned = plannedPhases paths :=
  rfl

theorem foreseen_stages (paths : Paths) (configuration : Configuration) :
    Stage.Foreseen configuration (OnBus [] []) (stages paths
      (checkReports paths (factsOf configuration)) (allReports paths (factsOf configuration))) := by
  have told {facts : List Facts} {reports : List Report} (bus : Bus)
      (h : OnBus facts reports bus) : bus.reports = reports := h.reports.reports_eq
  have idle {facts : List Facts} {reports : List Report} :
      Actor.LeadOn configuration (OnBus facts reports) [] (OnBus facts reports) := .none _
  exact .cons (.next factsActor_leads (.none _)) told <|
    .cons (.next architectureCheck_leads <| .next subscriptionCheck_leads <|
      .next (pathCheck_leads paths) (.none _)) told <|
    .cons (.next repositoriesActor_leads (.none _)) told <|
    .cons (.next summaryActor_leads (.none _)) told <|
    .cons idle told <| .cons idle told <| .cons idle told <| .cons idle told <|
    .cons idle told (.nil _)

def firstPhases (count : Nat) : List String :=
  (phases.take count).map Phase.name

/-- How many phases a run of a kind goes through at most. -/
def lastPlace : ExecutionKind → Nat
  | .preupgrade => 4
  | .upgrade => 9

def goodEnd : ExecutionKind → List String × RunOutcome
  | .preupgrade => (firstPhases 4, .stopped "Reports")
  | .upgrade => (firstPhases 6, .awaitingReboot "InterimPreparation" true)

theorem stopPlace_lastPhase (kind : ExecutionKind) :
    workflow.stopPlace (lastPhase kind) = .ok (lastPlace kind) := by
  cases kind <;> rfl

theorem ending_stages (paths : Paths) (checks all : List Report) (kind : ExecutionKind) :
    Stage.ending (workflow.isLastWanted (lastPhase kind) (lastPlace kind))
        ((stages paths checks all).take (lastPlace kind)) =
      if checks.any Report.isInhibitor then
        (firstPhases 2, .inhibited "Checks" (checks.filter Report.isInhibitor).length)
      else if all.any Report.isInhibitor then
        (firstPhases 4, .inhibited "Reports" (all.filter Report.isInhibitor).length)
      else goodEnd kind := by
  -- Reports are looked at behind the second phase and behind the fourth one only.
  cases inhibited : checks.any Report.isInhibitor <;>
    cases later : all.any Report.isInhibitor <;> cases kind <;>
      simp [Stage.ending, stages, plannedPhases, phases, turns, goodEnd, firstPhases, lastPlace,
        lastPhase, lastPhaseOfChecking, workflow, Workflow.isLastWanted, Phase.verdictOn,
        Phase.wantsReboot, Phase.plain, Verdict.outcome?, inhibited, later]

/-- How many of the architecture and the path of an upgrade are not supported. -/
def hindrances (paths : Paths) (facts : Facts) : Nat :=
  (if supportedArchitectures.contains facts.architecture then 0 else 1) +
    if paths.supports facts.sourceVersion facts.targetVersion then 0 else 1

theorem inhibitors_architectureReport? (facts : Facts) :
    ((architectureReport? facts).toList.filter Report.isInhibitor).length =
      if supportedArchitectures.contains facts.architecture then 0 else 1 := by
  unfold architectureReport?
  cases supportedArchitectures.contains facts.architecture <;> rfl

theorem inhibitors_subscriptionReport? (facts : Facts) :
    (subscriptionReport? facts).toList.filter Report.isInhibitor = [] := by
  unfold subscriptionReport?
  cases facts.skipSubscription <;> rfl

theorem inhibitors_pathReport? (paths : Paths) (facts : Facts) :
    ((pathReport? paths facts).toList.filter Report.isInhibitor).length =
      if paths.supports facts.sourceVersion facts.targetVersion then 0 else 1 := by
  unfold pathReport? Paths.supports
  dsimp only
  cases (paths.targets facts.sourceVersion).contains facts.targetVersion <;> rfl

theorem inhibitors_checkReports (paths : Paths) (facts : Facts) :
    ((checkReports paths facts).filter Report.isInhibitor).length = hindrances paths facts := by
  rw [checkReports, List.filter_append, List.filter_append, inhibitors_subscriptionReport?,
    List.append_nil, List.length_append, inhibitors_architectureReport?, inhibitors_pathReport?]
  rfl

theorem any_isInhibitor {reports : List Report} :
    reports.any Report.isInhibitor = decide (0 < (reports.filter Report.isInhibitor).length) := by
  rw [Bool.eq_iff_iff, decide_eq_true_iff, List.length_pos_iff_exists_mem]
  simp

theorem targetRepositories_eq_nil_iff {facts : Facts} :
    targetRepositories facts = [] ↔
      facts.skipSubscription = true ∧ facts.enabledRepositories = [] := by
  unfold targetRepositories
  cases facts.skipSubscription <;> simp

/-- The phases that a run of the upgrade enters, and how it ends. -/
def expectedEnd (paths : Paths) (facts : Facts) (kind : ExecutionKind) : List String × RunOutcome :=
  if 0 < hindrances paths facts then
    (firstPhases 2, .inhibited "Checks" (hindrances paths facts))
  else if targetRepositories facts = [] then (firstPhases 4, .inhibited "Reports" 1)
  else goodEnd kind

section

variable {paths : Paths} {facts : Facts}

theorem expectedEnd_of_hindered (h : 0 < hindrances paths facts) (kind : ExecutionKind) :
    expectedEnd paths facts kind =
      (firstPhases 2, .inhibited "Checks" (hindrances paths facts)) :=
  if_pos h

theorem expectedEnd_of_bare (h : hindrances paths facts = 0) (bare : targetRepositories facts = [])
    (kind : ExecutionKind) :
    expectedEnd paths facts kind = (firstPhases 4, .inhibited "Reports" 1) := by
  rw [expectedEnd, h, if_neg (Nat.lt_irrefl 0), if_pos bare]

theorem expectedEnd_of_enabled (h : hindrances paths facts = 0)
    (enabled : targetRepositories facts ≠ []) (kind : ExecutionKind) :
    expectedEnd paths facts kind = goodEnd kind := by
  rw [expectedEnd, h, if_neg (Nat.lt_irrefl 0), if_neg enabled]

/-- The only failures that are to be expected are inhibitors. -/
theorem isFailure_expectedEnd (paths : Paths) (facts : Facts) (kind : ExecutionKind) :
    (expectedEnd paths facts kind).2.isFailure = true ↔
      ∃ phase count, (expectedEnd paths facts kind).2 = .inhibited phase count := by
  unfold expectedEnd
  split
  · exact ⟨fun _ => ⟨_, _, rfl⟩, fun _ => rfl⟩
  · split
    · exact ⟨fun _ => ⟨_, _, rfl⟩, fun _ => rfl⟩
    · cases kind <;> simp [goodEnd, RunOutcome.isFailure]

end

theorem ending_eq_expectedEnd (paths : Paths) (facts : Facts) (kind : ExecutionKind) :
    Stage.ending (workflow.isLastWanted (lastPhase kind) (lastPlace kind))
        ((stages paths (checkReports paths facts) (allReports paths facts)).take (lastPlace kind)) =
      expectedEnd paths facts kind := by
  rw [ending_stages, any_isInhibitor, any_isInhibitor, allReports, List.filter_append,
    List.length_append, inhibitors_checkReports, expectedEnd]
  by_cases hindered : 0 < hindrances paths facts
  · simp [hindered]
  · have unhindered : hindrances paths facts = 0 := Nat.eq_zero_of_not_pos hindered
    rw [unhindered, repositoriesReport?]
    by_cases bare : targetRepositories facts = []
    · rw [if_pos bare, if_pos bare]
      rfl
    · rw [if_neg bare, if_neg bare]
      rfl

end Upgrade

end PhasedUpgrade
