import PhasedUpgrade.Proofs.Dispatch.Reading
import PhasedUpgrade.Run.Course

/-!
# What a run does in a phase

An execution that is running may end a phase in any of the ways that a verdict knows, so a phase
that has been run is always followed by its journal and its record. The equations below give the
steps of each part of a run in the order in which they are taken.
-/

namespace PhasedUpgrade

namespace Account

variable {α β : Type}

theorem does_bind (steps : List RunStep) (next : Unit → Account β) :
    (does steps >>= next) = ⟨steps ++ (next ()).steps, (next ()).ended⟩ := rfl

theorem ok_bind (value : α) (next : α → Account β) :
    (ends (.ok value) >>= next) = next value := rfl

theorem error_bind (error : RunError) (next : α → Account β) :
    (ends (.error error) >>= next) = ⟨[], .error error⟩ := rfl

theorem mk_ok_bind (steps : List RunStep) (value : α) (next : α → Account β) :
    ((⟨steps, .ok value⟩ : Account α) >>= next) =
      ⟨steps ++ (next value).steps, (next value).ended⟩ := rfl

theorem mk_error_bind (steps : List RunStep) (error : RunError) (next : α → Account β) :
    ((⟨steps, .error error⟩ : Account α) >>= next) = ⟨steps, .error error⟩ := rfl

end Account

def Execution.marked (execution : Execution) (state : ExecutionState) (time : Time.Instant) :
    Execution :=
  { execution with state := state, updatedAt := time }

/-- Whether some of the reports among messages keep the upgrade from going on. -/
def Message.inhibit (messages : List Message) : Bool :=
  (Message.reports messages).any Report.isInhibitor

namespace Verdict

theorem not_inhibited_of_commits {phase : Phase} {result : PhaseResult} {bus : Bus}
    {isLastWanted : Bool} (h : (ofResult phase result bus isLastWanted).commits = true)
    (gated : phase.stopIfInhibited = true) : Message.inhibit bus.log = false := by
  unfold ofResult at h
  split at h
  · cases h
  · split at h
    · cases h
    · rename_i passes
      have free : bus.hasInhibitors = false := by simpa [gated] using passes
      exact free

theorem wantsReboot_of_reboot {phase : Phase} {result : PhaseResult} {bus : Bus}
    {isLastWanted required : Bool} (h : ofResult phase result bus isLastWanted = reboot required) :
    phase.wantsReboot = true := by
  unfold ofResult at h
  split at h
  · cases h
  · split at h
    · cases h
    · split at h
      · cases h
      · split at h
        · assumption
        · cases h

theorem outcome?_eq_none_iff {verdict : Verdict} {phase : String} :
    verdict.outcome? phase = none ↔ verdict = onward := by
  cases verdict <;> simp [outcome?]

end Verdict

namespace Course

variable (supply : Supply)

def changed (course : Course) (state : ExecutionState) : Course :=
  { course with execution := course.execution.marked state (course.now supply) }.record supply none
    "state_changed" state.name

variable {supply} {course : Course}

theorem change_eq_ok {state : ExecutionState} (h : state ∈ course.execution.state.successors) :
    course.change supply state = .ok (course.changed supply state) := by
  unfold change Execution.transition ExecutionState.change
  rw [if_pos h]
  rfl

theorem change_eq_error {state : ExecutionState} (h : state ∉ course.execution.state.successors) :
    course.change supply state =
      .error (.transition ⟨course.execution.state.name, state.name⟩) := by
  unfold change Execution.transition ExecutionState.change
  rw [if_neg h]
  rfl

/-! ## One phase -/

theorem state_note (verdict : Verdict) (phase : String) (time : Time.Instant)
    (execution : Execution) : (verdict.note phase time execution).state = execution.state := by
  cases verdict <;> rfl

theorem configuration_note (verdict : Verdict) (phase : String) (time : Time.Instant)
    (execution : Execution) :
    (verdict.note phase time execution).configuration = execution.configuration := by
  cases verdict <;> rfl

/-- What a run knows of a phase when its actors are through. -/
structure TrialOf (course : Course) (phase : Phase) (trial : Trial) : Prop where
  visits : ∀ visit ∈ trial.visits, visit.OfPhase course.execution.id phase.name
  log_eq : trial.course.bench.bus.log =
    course.bench.bus.log ++ trial.visits.flatMap Visit.produced
  execution_eq : ∃ time,
    trial.course.execution = trial.verdict.note phase.name time course.execution
  gate : trial.verdict.commits = true → phase.stopIfInhibited = true →
    Message.inhibit trial.course.bench.bus.log = false
  reboot : ∀ required, trial.verdict = .reboot required → phase.wantsReboot = true

theorem tryPhase_spec (course : Course) (supply : Supply) (isLastWanted : Phase → Bool)
    (planned : PlannedPhase) :
    TrialOf course planned.phase (course.tryPhase supply isLastWanted planned) := by
  obtain ⟨visits, appended⟩ := Visit.makeAll_spec supply course.execution planned.phase.name
    (ActorResult.goesOn planned.phase.errorPolicy) planned.actors
    (course.record supply (some planned.phase.name) "phase_started" "").bench
  exact {
    visits := visits
    log_eq := appended.log_eq
    execution_eq := ⟨_, rfl⟩
    gate := Verdict.not_inhibited_of_commits
    reboot := fun _ => Verdict.wantsReboot_of_reboot }

def heeded (course : Course) (supply : Supply) (verdict : Verdict) : Course :=
  match verdict.state? with
  | some state => course.changed supply state
  | none => course

theorem bus_heeded (verdict : Verdict) :
    (course.heeded supply verdict).bench.bus = course.bench.bus := by
  unfold heeded
  cases verdict.state? <;> rfl

theorem configuration_heeded (verdict : Verdict) :
    (course.heeded supply verdict).execution.configuration =
      course.execution.configuration := by
  unfold heeded
  cases verdict.state? <;> rfl

theorem execution_heeded {verdict : Verdict} {state : ExecutionState}
    (h : verdict.state? = some state) :
    (course.heeded supply verdict).execution =
      course.execution.marked state (course.now supply) := by
  unfold heeded
  rw [h]
  rfl

theorem heed_eq_ok (running : course.execution.state = .running) (verdict : Verdict) :
    course.heed supply verdict = .ok (course.heeded supply verdict) := by
  unfold heed heeded
  cases verdict with
  | onward => rfl
  | failed _ _ => exact change_eq_ok (by rw [running]; decide)
  | inhibited _ => exact change_eq_ok (by rw [running]; decide)
  | stopped => exact change_eq_ok (by rw [running]; decide)
  | reboot _ => exact change_eq_ok (by rw [running]; decide)

def keptBy (course : Course) (trial : Trial) (after : Course) : Nat :=
  (if trial.verdict.commits then after else course).bench.bus.log.length

theorem runPhase_eq (running : course.execution.state = .running) (supply : Supply)
    (isLastWanted : Phase → Bool) (planned : PlannedPhase) :
    let trial := course.tryPhase supply isLastWanted planned
    let after := trial.course.heeded supply trial.verdict
    course.runPhase supply isLastWanted planned =
      ⟨trial.visits.map .visit ++ after.persisted (course.keptBy trial after),
        .ok (trial.result, trial.verdict, after)⟩ := by
  intro trial after
  obtain ⟨time, noted⟩ := (tryPhase_spec course supply isLastWanted planned).execution_eq
  have still : trial.course.execution.state = .running := by
    rw [noted, state_note, running]
  unfold runPhase
  simp only [Account.does_bind]
  rw [heed_eq_ok still, Account.ok_bind]
  simp [keptBy, pure, Account.ends, trial, after]

theorem mem_of_visit_mem {turn : Visit} {visits : List Visit} {after : Course} {count : Nat}
    (mem : .visit turn ∈ visits.map RunStep.visit ++ after.persisted count) : turn ∈ visits := by
  simpa [persisted] using mem

/-! ## The first steps -/

theorem begin_eq (h : .running ∈ course.execution.state.successors) :
    course.begin supply =
      ⟨[.save (course.changed supply .running).execution],
        .ok (course.changed supply .running)⟩ := by
  unfold begin
  rw [change_eq_ok h]
  rfl

theorem begin_eq_error (h : .running ∉ course.execution.state.successors) :
    course.begin supply =
      ⟨[], .error (.transition ⟨course.execution.state.name, "running"⟩)⟩ := by
  unfold begin
  rw [change_eq_error h]
  rfl

def setting (bindings : List (String × String)) : List RunStep :=
  bindings.map fun (name, value) => .setVariable name value

def restored (execution : Execution) : List (String × String) :=
  (Environment.restorable execution.configuration.env).entries

variable (supply) in
def taken (course : Course) : Course :=
  changed supply { course with execution := course.execution.clearFailure } .resumed

theorem resume_eq (h : .resumed ∈ course.execution.state.successors) (hasPhases : Bool) :
    course.resume supply hasPhases =
      ⟨setting (restored course.execution) ++ [.save (course.taken supply).execution],
        .ok (if hasPhases then (course.taken supply).changed supply .running
          else course.taken supply)⟩ := by
  have cleared : ExecutionState.resumed ∈ ({ course with
      execution := course.execution.clearFailure } : Course).execution.state.successors := h
  have running : ExecutionState.running ∈ (course.taken supply).execution.state.successors := by
    show ExecutionState.running ∈ ExecutionState.resumed.successors
    decide
  unfold resume
  simp only [Account.does_bind]
  rw [change_eq_ok cleared]
  cases hasPhases with
  | true =>
      simp only [Account.ok_bind, if_true]
      rw [show changed supply _ .resumed = course.taken supply from rfl, change_eq_ok running]
      rfl
  | false => rfl

theorem resume_eq_error (h : .resumed ∉ course.execution.state.successors) (hasPhases : Bool) :
    course.resume supply hasPhases =
      ⟨setting (restored course.execution),
        .error (.transition ⟨course.execution.state.name, "resumed"⟩)⟩ := by
  have cleared : ExecutionState.resumed ∉ ({ course with
      execution := course.execution.clearFailure } : Course).execution.state.successors := h
  unfold resume
  simp only [Account.does_bind]
  rw [change_eq_error cleared, Account.error_bind, List.append_nil]
  rfl

/-! ## All phases -/

theorem runPhases_nil (h : .completed ∈ course.execution.state.successors)
    (isLastWanted : Phase → Bool) :
    runPhases supply isLastWanted [] course =
      ⟨(course.changed supply .completed).persisted course.bench.bus.log.length,
        .ok ([], .completed, course.changed supply .completed)⟩ := by
  unfold runPhases
  rw [change_eq_ok h, Account.ok_bind, Account.does_bind]
  simp only [pure, Account.ends, List.append_nil]
  rfl

theorem runPhases_cons_of_outcome {isLastWanted : Phase → Bool} {planned : PlannedPhase}
    {steps : List RunStep} {result : PhaseResult} {verdict : Verdict} {after : Course}
    {outcome : RunOutcome}
    (ran : course.runPhase supply isLastWanted planned = ⟨steps, .ok (result, verdict, after)⟩)
    (ends : verdict.outcome? planned.phase.name = some outcome) (rest : List PlannedPhase) :
    runPhases supply isLastWanted (planned :: rest) course =
      ⟨steps, .ok ([result.summary], outcome, after)⟩ := by
  unfold runPhases
  rw [ran, Account.mk_ok_bind]
  simp [ends, pure, Account.ends]

theorem runPhases_cons_of_onward {isLastWanted : Phase → Bool} {planned : PlannedPhase}
    {steps : List RunStep} {result : PhaseResult} {verdict : Verdict} {after : Course}
    (ran : course.runPhase supply isLastWanted planned = ⟨steps, .ok (result, verdict, after)⟩)
    (goesOn : verdict.outcome? planned.phase.name = none) (rest : List PlannedPhase) :
    runPhases supply isLastWanted (planned :: rest) course =
      ⟨steps ++ (runPhases supply isLastWanted rest after).steps,
        (runPhases supply isLastWanted rest after).ended.map fun (summaries, outcome, course) =>
          (result.summary :: summaries, outcome, course)⟩ := by
  rw [runPhases, ran, Account.mk_ok_bind]
  simp only [goesOn]
  rcases runPhases supply isLastWanted rest after with ⟨later, _ | ⟨summaries, outcome, last⟩⟩
  · simp [Account.mk_error_bind, Except.map]
  · simp [Account.mk_ok_bind, Except.map, pure, Account.ends]

/-- The states in which phases are gone through: running, or resumed with nothing left to run. -/
def MayRun (course : Course) (plan : List PlannedPhase) : Prop :=
  course.execution.state = .running ∨ course.execution.state = .resumed ∧ plan = []

theorem MayRun.completed_mem {plan : List PlannedPhase} (h : course.MayRun plan) :
    .completed ∈ course.execution.state.successors := by
  rcases h with running | ⟨resumed, _⟩
  · rw [running]
    decide
  · rw [resumed]
    decide

theorem MayRun.running {first : PlannedPhase} {rest : List PlannedPhase}
    (h : course.MayRun (first :: rest)) : course.execution.state = .running := by
  rcases h with running | ⟨_, none⟩
  · exact running
  · cases none

theorem heeded_onward (course : Course) (supply : Supply) :
    course.heeded supply .onward = course := rfl

/-- A run takes the steps that the trial of its next phase asks for, and ends there or goes on. -/
theorem runPhases_cons_cases {isLastWanted : Phase → Bool} {planned : PlannedPhase} {trial : Trial}
    (running : course.execution.state = .running)
    (tried : course.tryPhase supply isLastWanted planned = trial) (rest : List PlannedPhase) :
    let after := trial.course.heeded supply trial.verdict
    let steps := trial.visits.map .visit ++ after.persisted (course.keptBy trial after)
    (∃ outcome, trial.verdict.outcome? planned.phase.name = some outcome ∧
      runPhases supply isLastWanted (planned :: rest) course =
        ⟨steps, .ok ([trial.result.summary], outcome, after)⟩) ∨
    trial.verdict = .onward ∧ after.execution.state = .running ∧
      runPhases supply isLastWanted (planned :: rest) course =
        ⟨steps ++ (runPhases supply isLastWanted rest after).steps,
          (runPhases supply isLastWanted rest after).ended.map fun (summaries, outcome, course) =>
            (trial.result.summary :: summaries, outcome, course)⟩ := by
  intro after steps
  have ran := runPhase_eq running supply isLastWanted planned
  obtain ⟨time, noted⟩ := (tryPhase_spec course supply isLastWanted planned).execution_eq
  rw [tried] at ran noted
  cases ending : trial.verdict.outcome? planned.phase.name with
  | some outcome => exact .inl ⟨outcome, rfl, runPhases_cons_of_outcome ran ending rest⟩
  | none =>
      have onward := Verdict.outcome?_eq_none_iff.mp ending
      refine .inr ⟨onward, ?_, runPhases_cons_of_onward ran ending rest⟩
      show (trial.course.heeded supply trial.verdict).execution.state = .running
      rw [onward, heeded_onward, noted, state_note, running]

theorem runPhases_ended {plan : List PlannedPhase} (h : course.MayRun plan)
    (isLastWanted : Phase → Bool) :
    ∃ value, (runPhases supply isLastWanted plan course).ended = .ok value := by
  induction plan generalizing course with
  | nil =>
      rw [runPhases_nil h.completed_mem]
      exact ⟨_, rfl⟩
  | cons planned rest ih =>
      rcases runPhases_cons_cases h.running rfl rest with ⟨outcome, _, ran⟩ | ⟨_, still, ran⟩
      · rw [ran]
        exact ⟨_, rfl⟩
      · obtain ⟨value, ended⟩ := ih (.inl still)
        rw [ran, ended]
        exact ⟨_, rfl⟩

/-! ## Whole runs -/

variable {entry : Entry} {bench : Workbench} {plan : List PlannedPhase} {steps : List RunStep}

theorem account_eq (opened : opening supply entry bench (!plan.isEmpty) = ⟨steps, .ok course⟩)
    (isLastWanted : Phase → Bool) :
    account supply entry bench isLastWanted plan =
      ⟨steps ++ (runPhases supply isLastWanted plan course).steps,
        (runPhases supply isLastWanted plan course).ended.map fun (summaries, outcome, course) =>
          { executionId := course.execution.id
            kind := course.execution.kind
            state := course.execution.state
            outcome := outcome
            phases := summaries
            reports := course.bench.bus.reports }⟩ := by
  unfold account
  rw [opened, Account.mk_ok_bind]
  rcases runPhases supply isLastWanted plan course with ⟨later, _ | ⟨summaries, outcome, last⟩⟩
  · simp [Account.mk_error_bind, Except.map]
  · simp [Account.mk_ok_bind, Except.map, pure, Account.ends]

theorem account_eq_error {error : RunError}
    (opened : opening supply entry bench (!plan.isEmpty) = ⟨steps, .error error⟩)
    (isLastWanted : Phase → Bool) :
    account supply entry bench isLastWanted plan = ⟨steps, .error error⟩ := by
  unfold account
  rw [opened, Account.mk_error_bind]

end Course

end PhasedUpgrade
