import PhasedUpgrade.Proofs.Dispatch.Reading
import PhasedUpgrade.Proofs.Dispatch.Selection
import PhasedUpgrade.Proofs.Run.Plan

/-!
# Visits of runs

A run hands what its actors share, the bus and the answers, on from one visit to the next: each
actor finds what the run has started with and what the visits before its own have added to it.
-/

namespace PhasedUpgrade

/-! ## What actors share -/

def RunStep.produced (steps : List RunStep) : List Message :=
  steps.flatMap fun
    | .visit turn => turn.produced
    | _ => []

theorem RunStep.produced_append (first second : List RunStep) :
    produced (first ++ second) = produced first ++ produced second := by
  simp [produced]

/-- What the actors of a run share. -/
structure Surroundings where
  bus : Bus
  answers : Answers

def Workbench.surroundings (bench : Workbench) : Surroundings :=
  ⟨bench.bus, bench.answers⟩

namespace Surroundings

def after (found : Surroundings) (turn : Visit) : Surroundings :=
  ⟨⟨found.bus.catalog, found.bus.log ++ turn.produced⟩, turn.answers⟩

def behind : Surroundings → List RunStep → Surroundings
  | found, [] => found
  | found, .visit turn :: rest => (found.after turn).behind rest
  | found, .setVariable _ _ :: rest => found.behind rest
  | found, .save _ :: rest => found.behind rest
  | found, .saveJournal _ _ :: rest => found.behind rest

theorem behind_append (found : Surroundings) (first second : List RunStep) :
    found.behind (first ++ second) = (found.behind first).behind second := by
  induction first generalizing found with
  | nil => rfl
  | cons step rest ih => cases step <;> exact ih _

theorem bus_behind (found : Surroundings) (steps : List RunStep) :
    (found.behind steps).bus =
      ⟨found.bus.catalog, found.bus.log ++ RunStep.produced steps⟩ := by
  induction steps generalizing found with
  | nil => simp [behind, RunStep.produced]
  | cons step rest ih =>
      cases step with
      | visit turn =>
          refine (ih (found.after turn)).trans ?_
          simp [after, RunStep.produced]
      | setVariable name value => exact ih found
      | save execution => exact ih found
      | saveJournal id journal => exact ih found

end Surroundings

/-! ## Visits made from some surroundings on -/

/-- Whether a visit is the turn of an actor of the registry in given surroundings. -/
def Visit.MadeIn (registry : Registry) (supply : Supply) (found : Surroundings) (turn : Visit) :
    Prop :=
  ∃ actor ∈ registry.actors, ∃ execution bench, bench.surroundings = found ∧
    turn = (Visit.make supply execution turn.phase actor bench).1

/-- Whether each visit among some steps is made in what the steps before it have left. -/
def RunStep.MadeFrom (registry : Registry) (supply : Supply) :
    Surroundings → List RunStep → Prop
  | _, [] => True
  | found, .visit turn :: rest =>
      turn.MadeIn registry supply found ∧ MadeFrom registry supply (found.after turn) rest
  | found, .setVariable _ _ :: rest => MadeFrom registry supply found rest
  | found, .save _ :: rest => MadeFrom registry supply found rest
  | found, .saveJournal _ _ :: rest => MadeFrom registry supply found rest

namespace RunStep

variable {registry : Registry} {supply : Supply} {found : Surroundings}
  {first second : List RunStep}

theorem madeFrom_append :
    MadeFrom registry supply found (first ++ second) ↔
      MadeFrom registry supply found first ∧
        MadeFrom registry supply (found.behind first) second := by
  induction first generalizing found with
  | nil => exact ⟨fun later => ⟨trivial, later⟩, And.right⟩
  | cons step rest ih =>
      cases step with
      | visit turn => exact (and_congr_right fun _ => ih).trans and_assoc.symm
      | setVariable name value => exact ih
      | save execution => exact ih
      | saveJournal id journal => exact ih

theorem MadeFrom.of_prefix (h : MadeFrom registry supply found second) (part : first <+: second) :
    MadeFrom registry supply found first := by
  obtain ⟨rest, rfl⟩ := part
  exact (madeFrom_append.mp h).1

theorem MadeFrom.at_visit {turn : Visit}
    (h : MadeFrom registry supply found (first ++ .visit turn :: second)) :
    turn.MadeIn registry supply (found.behind first) :=
  (madeFrom_append.mp h).2.1

theorem madeFrom_setting (registry : Registry) (supply : Supply) (found : Surroundings)
    (bindings : List (String × String)) :
    MadeFrom registry supply found (Course.setting bindings) ∧
      found.behind (Course.setting bindings) = found := by
  induction bindings with
  | nil => exact ⟨trivial, rfl⟩
  | cons first rest ih => exact ih

end RunStep

/-! ## Phases -/

section

variable {registry : Registry} (supply : Supply)

theorem Visit.surroundings_make (execution : Execution) (phase : String) (actor : Actor)
    (bench : Workbench) :
    (make supply execution phase actor bench).2.surroundings =
      bench.surroundings.after (make supply execution phase actor bench).1 := by
  unfold Workbench.surroundings
  rw [bus_make]
  rfl

theorem Visit.makeAll_madeFrom (execution : Execution) (phase : String)
    (goesOn : ActorResult → Bool) {actors : List Actor}
    (known : ∀ actor ∈ actors, actor ∈ registry.actors) (bench : Workbench) :
    RunStep.MadeFrom registry supply bench.surroundings
        ((makeAll supply execution phase goesOn actors bench).1.map .visit) ∧
      (makeAll supply execution phase goesOn actors bench).2.surroundings =
        bench.surroundings.behind
          ((makeAll supply execution phase goesOn actors bench).1.map .visit) := by
  induction actors generalizing bench with
  | nil => exact ⟨trivial, rfl⟩
  | cons actor rest ih =>
      obtain ⟨here, others⟩ := List.forall_mem_cons.mp known
      have turn : (make supply execution phase actor bench).1.MadeIn registry supply
          bench.surroundings := ⟨actor, here, execution, bench, rfl, rfl⟩
      have left := surroundings_make supply execution phase actor bench
      obtain ⟨later, last⟩ := ih others (make supply execution phase actor bench).2
      rw [left] at later last
      simp only [makeAll]
      split
      · exact ⟨⟨turn, later⟩, last⟩
      · exact ⟨⟨turn, trivial⟩, left⟩

namespace Course

variable {course : Course}

theorem tryPhase_madeFrom (course : Course) (isLastWanted : Phase → Bool) {planned : PlannedPhase}
    (known : ∀ actor ∈ planned.actors, actor ∈ registry.actors) :
    let trial := course.tryPhase supply isLastWanted planned
    RunStep.MadeFrom registry supply course.bench.surroundings (trial.visits.map .visit) ∧
      trial.course.bench.surroundings =
        course.bench.surroundings.behind (trial.visits.map .visit) :=
  Visit.makeAll_madeFrom supply course.execution planned.phase.name
    (ActorResult.goesOn planned.phase.errorPolicy) known
    (course.record supply (some planned.phase.name) "phase_started" "").bench

theorem surroundings_heeded (course : Course) (verdict : Verdict) :
    (course.heeded supply verdict).bench.surroundings = course.bench.surroundings := by
  unfold heeded
  cases verdict.state? <;> rfl

theorem madeFrom_persisted (course : Course) (found : Surroundings) (count : Nat) :
    RunStep.MadeFrom registry supply found (course.persisted count) ∧
      found.behind (course.persisted count) = found :=
  ⟨trivial, rfl⟩

theorem runPhases_madeFrom {plan : List PlannedPhase} (mayRun : course.MayRun plan)
    (isLastWanted : Phase → Bool)
    (known : ∀ planned ∈ plan, ∀ actor ∈ planned.actors, actor ∈ registry.actors) :
    RunStep.MadeFrom registry supply course.bench.surroundings
      (runPhases supply isLastWanted plan course).steps := by
  induction plan generalizing course with
  | nil =>
      rw [runPhases_nil mayRun.completed_mem]
      exact (madeFrom_persisted supply _ _ _).1
  | cons planned rest ih =>
      obtain ⟨here, others⟩ := List.forall_mem_cons.mp known
      obtain ⟨made, left⟩ := course.tryPhase_madeFrom supply isLastWanted here
      generalize tried : course.tryPhase supply isLastWanted planned = trial at made left
      have after := surroundings_heeded supply trial.course trial.verdict
      have whole := RunStep.madeFrom_append.mpr
        ⟨made, (madeFrom_persisted supply (trial.course.heeded supply trial.verdict) _
          (course.keptBy trial (trial.course.heeded supply trial.verdict))).1⟩
      rcases runPhases_cons_cases mayRun.running tried rest with
        ⟨outcome, _, ran⟩ | ⟨_, still, ran⟩
      · rw [ran]
        exact whole
      · have later := ih (.inl still) others
        rw [after, left] at later
        rw [ran]
        refine RunStep.madeFrom_append.mpr ⟨whole, ?_⟩
        rw [Surroundings.behind_append]
        exact later

/-- To open a run is, for the bench, to write entries into the audit trail. -/
theorem bench_of_opened {P : Workbench → Prop} {entry : Entry} {bench : Workbench}
    {hasPhases : Bool} {steps : List RunStep}
    (h : opening supply entry bench hasPhases = ⟨steps, .ok course⟩) (start : P bench)
    (record : ∀ bench entry, P bench → P (bench.record supply entry)) : P course.bench := by
  unfold opening at h
  cases resumes : entry.resumes with
  | false =>
      rw [resumes, if_neg Bool.false_ne_true] at h
      by_cases legal : .running ∈ entry.execution.state.successors
      · rw [begin_eq legal] at h
        cases h
        exact record _ _ start
      · rw [begin_eq_error legal] at h
        cases h
  | true =>
      rw [resumes, if_pos rfl] at h
      by_cases legal : .resumed ∈ entry.execution.state.successors
      · rw [resume_eq legal] at h
        cases h
        cases hasPhases with
        | true => exact record _ _ (record _ _ start)
        | false => exact record _ _ start
      · rw [resume_eq_error legal] at h
        cases h

theorem surroundings_of_opened {entry : Entry} {bench : Workbench} {hasPhases : Bool}
    {steps : List RunStep} (h : opening supply entry bench hasPhases = ⟨steps, .ok course⟩) :
    course.bench.surroundings = bench.surroundings :=
  bench_of_opened supply h (P := fun other => other.surroundings = bench.surroundings) rfl
    fun _ _ same => same

theorem account_madeFrom {entry : Entry} (bench : Workbench) {plan : List PlannedPhase}
    (logged : bench.bus.log = entry.journal.messages) (isLastWanted : Phase → Bool)
    (known : ∀ planned ∈ plan, ∀ actor ∈ planned.actors, actor ∈ registry.actors) :
    RunStep.MadeFrom registry supply bench.surroundings
      (account supply entry bench isLastWanted plan).steps := by
  rcases opening_cases logged with
    ⟨bindings, written, course, opened, _, _, state⟩ | ⟨bindings, _, opened⟩
  · have mayRun : course.MayRun plan := mayRun_of_opened state
    have later := runPhases_madeFrom supply mayRun isLastWanted known
    obtain ⟨set, same⟩ := RunStep.madeFrom_setting registry supply bench.surroundings bindings
    rw [surroundings_of_opened supply opened] at later
    rw [account_eq opened]
    refine RunStep.madeFrom_append.mpr
      ⟨RunStep.madeFrom_append.mpr ⟨set, trivial⟩, ?_⟩
    rw [Surroundings.behind_append, same]
    exact later
  · rw [account_eq_error opened]
    exact (RunStep.madeFrom_setting registry supply bench.surroundings bindings).1

end Course

theorem Setting.mem_of_plan {setting : Setting} {filters : Filters} {start stop : Nat}
    {plan : List PlannedPhase} (h : setting.plan filters start stop = .ok plan) :
    ∀ planned ∈ plan, ∀ actor ∈ planned.actors, actor ∈ setting.registry.actors := by
  induction plan generalizing start with
  | nil => exact fun _ none => absurd none List.not_mem_nil
  | cons first rest ih =>
      obtain ⟨_, _, chosen, later⟩ := Setting.plan_cons h
      exact List.forall_mem_cons.mpr ⟨fun _ among => Dispatch.mem_of_plan chosen among, ih later⟩

theorem Setting.account_madeFrom {setting : Setting} {options : RunOptions} {answers : Answers}
    {entry : Entry} {account : Account RunResult}
    (h : setting.account supply options answers entry = .ok account) :
    RunStep.MadeFrom setting.registry supply
      ⟨⟨setting.registry.catalog, entry.journal.messages⟩, answers⟩ account.steps := by
  obtain ⟨stop, plan, _, planned, rfl⟩ := Setting.exists_plan h
  exact Course.account_madeFrom supply (entry.bench setting.registry.catalog answers) rfl _
    (Setting.mem_of_plan planned)

end

end PhasedUpgrade
