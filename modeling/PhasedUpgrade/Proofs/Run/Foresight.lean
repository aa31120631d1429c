import PhasedUpgrade.Proofs.Dispatch.Leading
import PhasedUpgrade.Proofs.Run.Plan

/-!
# Runs that are foreseen

Where the actors of each phase are known to lead quietly to certain reports, the run through the
phases is known as well: it goes on to the first phase that these reports or the workflow itself let
it end behind.
-/

namespace PhasedUpgrade

def Phase.verdictOn (phase : Phase) (reports : List Report) (isLastWanted : Bool) : Verdict :=
  if phase.stopIfInhibited && reports.any Report.isInhibitor then
    .inhibited (reports.filter Report.isInhibitor).length
  else if isLastWanted then .stopped
  else if phase.wantsReboot then .reboot phase.restart
  else .onward

theorem Verdict.ofResult_of_succeeded {result : PhaseResult} (h : result.succeeded = true)
    (phase : Phase) (bus : Bus) (isLastWanted : Bool) :
    ofResult phase result bus isLastWanted = phase.verdictOn bus.reports isLastWanted := by
  rw [ofResult, h]
  rfl

/-- A planned phase, and the reports that there are behind it. -/
structure Stage where
  planned : PlannedPhase
  reports : List Report

namespace Stage

/-- The phases that a run enters which finds the reports of its stages, and how it ends. -/
def ending (isLastWanted : Phase → Bool) : List Stage → List String × RunOutcome
  | [] => ([], .completed)
  | stage :: rest =>
      let phase := stage.planned.phase
      match (phase.verdictOn stage.reports (isLastWanted phase)).outcome? phase.name with
      | some outcome => ([phase.name], outcome)
      | none => (phase.name :: (ending isLastWanted rest).1, (ending isLastWanted rest).2)

/-- Whether the actors of each stage lead quietly from the bus before it to its reports. -/
inductive Foreseen (configuration : Configuration) : (Bus → Prop) → List Stage → Prop
  | nil (before : Bus → Prop) : Foreseen configuration before []
  | cons {before after : Bus → Prop} {stage : Stage} {rest : List Stage}
      (turns : Actor.LeadOn configuration before stage.planned.actors after)
      (told : ∀ bus, after bus → bus.reports = stage.reports)
      (later : Foreseen configuration after rest) : Foreseen configuration before (stage :: rest)

end Stage

namespace Course

variable {course : Course} {configuration : Configuration} {before after : Bus → Prop}

theorem tryPhase_foreseen {planned : PlannedPhase} {reports : List Report}
    (turns : Actor.LeadOn configuration before planned.actors after)
    (told : ∀ bus, after bus → bus.reports = reports)
    (configured : course.execution.configuration = configuration) (holds : before course.bench.bus)
    (supply : Supply) (isLastWanted : Phase → Bool) :
    let trial := course.tryPhase supply isLastWanted planned
    trial.verdict = planned.phase.verdictOn reports (isLastWanted planned.phase) ∧
      after trial.course.bench.bus := by
  have start :
      before (course.record supply (some planned.phase.name) "phase_started" "").bench.bus :=
    holds
  obtain ⟨quiet, left⟩ := turns.makeAll configured supply planned.phase.name
    planned.phase.errorPolicy start
  intro trial
  have succeeded : trial.result.succeeded = true := by
    apply PhaseResult.succeeded_of_quiet
    simp only [List.forall_mem_map]
    exact quiet
  have left : after trial.course.bench.bus := left
  refine ⟨?_, left⟩
  rw [← told _ left]
  exact Verdict.ofResult_of_succeeded succeeded _ _ _

/-- A run through stages that are foreseen enters the phases and ends as the stages tell. -/
theorem runPhases_foreseen {stages : List Stage} (h : Stage.Foreseen configuration before stages)
    (running : course.execution.state = .running)
    (configured : course.execution.configuration = configuration) (holds : before course.bench.bus)
    (supply : Supply) (isLastWanted : Phase → Bool) :
    let ran := runPhases supply isLastWanted (stages.map Stage.planned) course
    ∃ summaries last, ran.ended = .ok (summaries, (Stage.ending isLastWanted stages).2, last) ∧
      summaries.map PhaseSummary.phase = (Stage.ending isLastWanted stages).1 ∧
      ∀ visit, .visit visit ∈ ran.steps → visit.phase ∈ (Stage.ending isLastWanted stages).1 := by
  induction h generalizing course with
  | nil before =>
      have mayRun : course.MayRun [] := .inl running
      rw [List.map_nil, runPhases_nil mayRun.completed_mem]
      exact ⟨[], _, rfl, rfl, fun visit mem => absurd mem (by simp [persisted])⟩
  | @cons before after stage rest turns told _ ih =>
      obtain ⟨trial, tried⟩ : ∃ trial, course.tryPhase supply isLastWanted stage.planned = trial :=
        ⟨_, rfl⟩
      have foreseen := tryPhase_foreseen turns told configured holds supply isLastWanted
      have spec := tryPhase_spec course supply isLastWanted stage.planned
      have named : (course.tryPhase supply isLastWanted stage.planned).result.summary.phase =
        stage.planned.phase.name := rfl
      rw [tried] at foreseen spec named
      obtain ⟨judged, left⟩ := foreseen
      have goes := runPhases_cons_cases running tried (rest.map Stage.planned)
      rw [List.map_cons, Stage.ending]
      dsimp only
      rcases goes with ⟨outcome, ends, ran⟩ | ⟨onward, still, ran⟩
      · rw [judged] at ends
        rw [ran, ends]
        refine ⟨_, _, rfl, by simp [named], fun visit mem => ?_⟩
        rw [List.mem_singleton]
        exact (spec.visits visit (mem_of_visit_mem mem)).phase_eq
      · rw [onward] at judged
        rw [onward, heeded_onward] at ran still
        obtain ⟨time, noted⟩ := spec.execution_eq
        have kept : trial.course.execution.configuration = configuration := by
          rw [noted, ← configured]
          cases trial.verdict <;> rfl
        obtain ⟨summaries, last, ended, names, visits⟩ := ih still kept left
        rw [← judged, Verdict.outcome?, ran]
        refine ⟨_, _, by rw [ended]; rfl, by simp [named, names], fun visit mem => ?_⟩
        rcases List.mem_append.mp mem with here | later
        · have own := spec.visits visit (mem_of_visit_mem here)
          exact List.mem_cons.mpr (.inl own.phase_eq)
        · exact List.mem_cons_of_mem _ (visits visit later)

end Course

/-- A fresh run through stages that are foreseen comes to the result that the stages tell. -/
theorem Setting.account_foreseen {setting : Setting} {options : RunOptions}
    {configuration : Configuration} {before : Bus → Prop} {stages : List Stage} {stop : Nat}
    (stopped : setting.workflow.stopPlace options.untilPhase = .ok stop)
    (planned : setting.plan (options.filtersFor configuration) 0 stop =
      .ok (stages.map Stage.planned))
    (foreseen : Stage.Foreseen configuration before stages)
    (empty : before ⟨setting.registry.catalog, []⟩) (supply : Supply) (kind : ExecutionKind)
    (answers : Answers) :
    let entry := Entry.fresh setting.workflow supply.executionId kind configuration (supply.time 0)
    let ending := Stage.ending (setting.workflow.isLastWanted options.untilPhase stop) stages
    ∃ account result, setting.account supply options answers entry = .ok account ∧
      account.ended = .ok result ∧ result.outcome = ending.2 ∧
      result.phases.map PhaseSummary.phase = ending.1 ∧
      ∀ visit, .visit visit ∈ account.steps → visit.phase ∈ ending.1 := by
  intro entry ending
  have configured : entry.execution.configuration = configuration := rfl
  have start : entry.start = 0 := rfl
  have made : setting.account supply options answers entry = .ok (Course.account supply entry
      (entry.bench setting.registry.catalog answers)
      (setting.workflow.isLastWanted options.untilPhase stop) (stages.map Stage.planned)) := by
    rw [← configured, ← start] at planned
    exact Setting.account_of_plan stopped planned supply answers
  let course : Course := ⟨entry.execution, entry.bench setting.registry.catalog answers⟩
  have mayBegin : .running ∈ course.execution.state.successors := by
    show .running ∈ ExecutionState.notStarted.successors
    decide
  have begun : Course.opening supply entry (entry.bench setting.registry.catalog answers)
      (!(stages.map Stage.planned).isEmpty) = _ :=
    Course.begin_eq mayBegin
  have running : (course.changed supply .running).execution.state = .running := rfl
  obtain ⟨summaries, last, ended, names, visits⟩ := Course.runPhases_foreseen foreseen running
    configured empty supply (setting.workflow.isLastWanted options.untilPhase stop)
  have told := Course.account_eq begun (setting.workflow.isLastWanted options.untilPhase stop)
  rw [ended] at told
  refine ⟨_, _, made, by rw [told]; rfl, rfl, names, fun visit mem => ?_⟩
  rw [told] at mem
  rcases List.mem_append.mp mem with opening | later
  · simp at opening
  · exact visits visit later

end PhasedUpgrade
