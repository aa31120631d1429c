import PhasedUpgrade.Proofs.Dispatch.Judgement
import PhasedUpgrade.Proofs.Run.Trace

/-!
# What a run goes through

A run that comes to a result has gone through the first phases of its plan, and nothing kept it from
going on behind any of them but the last. What it comes to is decided by that last phase alone, and
its outcome, its state and the record that it leaves agree on it.
-/

namespace PhasedUpgrade

/-! ## Ends of runs -/

def RunOutcome.state : RunOutcome → ExecutionState
  | failed _ _ | inhibited _ _ => .failed
  | awaitingReboot _ _ => .awaitingReboot
  | completed | stopped _ => .completed

/-- Whether a run is to end behind a phase that is not the last one of its workflow. -/
def Workflow.endsEarly (workflow : Workflow) (untilPhase : Option String) (phase : Phase) : Bool :=
  untilPhase = some phase.name && workflow.phases.getLast? ≠ some phase

/-- A planned phase that a run has gone through, with the turns that its actors have taken. -/
structure Passage where
  planned : PlannedPhase
  visits : List Visit

namespace Passage

def phase (passage : Passage) : Phase :=
  passage.planned.phase

def result (passage : Passage) : PhaseResult :=
  .conclude passage.phase (passage.visits.map Visit.outcome)

def produced (passage : Passage) : List Message :=
  passage.visits.flatMap Visit.produced

/--
Whether the turns of a passage are those of the first of its planned actors, in the order of the
plan, and of all of them if the phase has succeeded.
-/
def Taken (passage : Passage) (supply : Supply) (id : ExecutionId) : Prop :=
  ∃ ran execution bench, execution.id = id ∧ ran <+: passage.planned.actors ∧
    passage.visits = (Visit.runThrough supply execution passage.phase.name ran bench).1 ∧
    (passage.result.status = .succeeded → ran = passage.planned.actors)

/-- Nothing keeps a run from going on behind a passage, with the reports that there are by then. -/
structure GoesOn (passage : Passage) (workflow : Workflow) (untilPhase : Option String)
    (reports : List Report) : Prop where
  succeeded : passage.result.status = .succeeded
  ungated : passage.phase.stopIfInhibited = true → ∀ report ∈ reports, report.isInhibitor = false
  unasked : untilPhase = some passage.phase.name → workflow.phases.getLast? = some passage.phase
  stays : passage.phase.wantsReboot = false

/-- The outcome of a run whose last passage it is, with all its reports. -/
def outcome (passage : Passage) (workflow : Workflow) (untilPhase : Option String)
    (reports : List Report) : RunOutcome :=
  if passage.result.status = .failed then
    .failed passage.phase.name
      (!passage.result.terminal && passage.phase.retryPolicy = .retryPhase)
  else if passage.phase.stopIfInhibited && reports.any Report.isInhibitor then
    .inhibited passage.phase.name (reports.filter Report.isInhibitor).length
  else if workflow.endsEarly untilPhase passage.phase then .stopped passage.phase.name
  else if passage.phase.wantsReboot then
    .awaitingReboot passage.phase.name passage.phase.restart
  else .completed

variable {passage : Passage} {workflow : Workflow} {untilPhase : Option String}
  {reports : List Report}

theorem outcome_eq_completed_iff :
    passage.outcome workflow untilPhase reports = .completed ↔
      passage.GoesOn workflow untilPhase reports := by
  unfold outcome
  constructor
  · intro same
    split at same
    · cases same
    next notFailed =>
      split at same
      · cases same
      next notGated =>
        split at same
        · cases same
        next notAsked =>
          split at same
          · cases same
          next stays =>
            refine ⟨?_, fun gated report mem => ?_, fun asked => ?_, by simpa using stays⟩
            · cases status : passage.result.status with
              | succeeded => rfl
              | failed => exact absurd status notFailed
            · have none : reports.any Report.isInhibitor = false := by simpa [gated] using notGated
              simpa using List.any_eq_false.mp none report mem
            · simpa [Workflow.endsEarly, asked] using notAsked
  · intro goesOn
    have none : (passage.phase.stopIfInhibited && reports.any Report.isInhibitor) = false := by
      cases gated : passage.phase.stopIfInhibited with
      | false => rfl
      | true =>
          exact List.any_eq_false.mpr fun report mem => by simp [goesOn.ungated gated report mem]
    have asked : workflow.endsEarly untilPhase passage.phase = false := by
      simpa [Workflow.endsEarly] using goesOn.unasked
    simp [goesOn.succeeded, none, asked, goesOn.stays]

/-- The verdict behind the turns of a passage is what the outcome of the run is made from. -/
theorem outcome_eq_verdict (passage : Passage) (bus : Bus) :
    passage.outcome workflow untilPhase bus.reports =
      ((Verdict.ofResult passage.phase passage.result bus
        (workflow.endsEarly untilPhase passage.phase)).outcome? passage.phase.name).getD
          .completed := by
  have gate : bus.hasInhibitors = bus.reports.any Report.isInhibitor := rfl
  unfold outcome Verdict.ofResult
  cases status : passage.result.status with
  | failed => simp [PhaseResult.succeeded, status, Verdict.outcome?]
  | succeeded =>
      simp only [PhaseResult.succeeded, status, gate, reduceCtorEq, if_false, decide_true,
        Bool.not_true, Bool.false_eq_true]
      split
      · rfl
      · split
        · rfl
        · split <;> rfl

end Passage

namespace Verdict

variable {verdict : Verdict} {phase : String} {outcome : RunOutcome}

theorem state?_of_outcome (ends : verdict.outcome? phase = some outcome) :
    verdict.state? = some outcome.state := by
  cases verdict with
  | onward => cases ends
  | failed _ _ | inhibited _ | stopped | reboot _ =>
      obtain rfl := Option.some.inj ends
      rfl

theorem ne_completed_of_outcome (ends : verdict.outcome? phase = some outcome) :
    outcome ≠ .completed := by
  cases verdict with
  | onward => cases ends
  | failed _ _ | inhibited _ | stopped | reboot _ =>
      obtain rfl := Option.some.inj ends
      nofun

theorem failure_note (verdict : Verdict) (phase : String) (time : Time.Instant)
    (execution : Execution) : (verdict.note phase time execution).failure =
      (execution.failure || ((verdict.outcome? phase).map RunOutcome.isFailure).getD false) := by
  cases verdict <;> simp [note, outcome?, RunOutcome.isFailure, Execution.failPhase,
    Execution.commitPhase]

end Verdict

/-! ## Runs through phases -/

theorem RunStep.visits_of_phase (visits : List Visit) (after : Course) (count : Nat) :
    (visits.map RunStep.visit ++ after.persisted count).filterMap visit? = visits := by
  have all : (visits.map RunStep.visit).filterMap visit? = visits := by
    rw [List.filterMap_map]
    exact List.filterMap_some
  rw [List.filterMap_append, all]
  exact List.append_nil visits

namespace Course

/-- What a run through phases leaves behind, and how it ends. -/
structure Passed (supply : Supply) (workflow : Workflow) (untilPhase : Option String)
    (course : Course) (plan : List PlannedPhase) (steps : List RunStep) (passages : List Passage)
    (outcome : RunOutcome) (last : Course) : Prop where
  planned : passages.map Passage.planned <+: plan
  taken : ∀ passage ∈ passages, passage.Taken supply course.execution.id
  visits : steps.filterMap RunStep.visit? = passages.flatMap Passage.visits
  log_eq : last.bench.bus.log = course.bench.bus.log ++ passages.flatMap Passage.produced
  onward : ∀ before passage behind, passages = before ++ passage :: behind → behind ≠ [] →
    passage.GoesOn workflow untilPhase (Message.reports
      (course.bench.bus.log ++ (before ++ [passage]).flatMap Passage.produced))
  ending : ∀ passage ∈ passages.getLast?,
    outcome = passage.outcome workflow untilPhase last.bench.bus.reports
  whole : outcome = .completed → passages.map Passage.planned = plan
  idle : passages = [] → outcome = .completed
  id_eq : last.execution.id = course.execution.id
  state : last.execution.state = outcome.state
  failure : last.execution.failure = (course.execution.failure || outcome.isFailure)
  /-- The last that is written is where the run stands at its end. -/
  written : ∃ before count, steps = before ++ last.persisted count

namespace Passed

variable {supply : Supply} {workflow : Workflow} {untilPhase : Option String}
  {course after last : Course} {plan : List PlannedPhase} {steps later : List RunStep}
  {passage : Passage} {passages : List Passage} {outcome : RunOutcome}

/-- A run that goes on behind a phase passes it and then what it passes from there on. -/
theorem cons (passed : after.Passed supply workflow untilPhase plan later passages outcome last)
    (taken : passage.Taken supply course.execution.id)
    (goesOn : passage.GoesOn workflow untilPhase
      (Message.reports (course.bench.bus.log ++ passage.produced)))
    (visits : steps.filterMap RunStep.visit? = passage.visits)
    (log : after.bench.bus.log = course.bench.bus.log ++ passage.produced)
    (id : after.execution.id = course.execution.id)
    (failure : after.execution.failure = course.execution.failure) :
    course.Passed supply workflow untilPhase (passage.planned :: plan) (steps ++ later)
      (passage :: passages) outcome last where
  planned := List.cons_prefix_cons.mpr ⟨rfl, passed.planned⟩
  taken := List.forall_mem_cons.mpr ⟨taken, id ▸ passed.taken⟩
  visits := by rw [List.filterMap_append, visits, passed.visits, List.flatMap_cons]
  log_eq := by rw [passed.log_eq, log, List.flatMap_cons, List.append_assoc]
  onward before other behind split more := by
    cases before with
    | nil =>
        obtain ⟨rfl, rfl⟩ := List.cons.inj split
        simpa using goesOn
    | cons first before =>
        obtain ⟨rfl, rest⟩ := List.cons.inj split
        have there := passed.onward before other behind rest more
        rw [log, List.append_assoc] at there
        exact there
  ending other among := by
    cases passages with
    | nil =>
        obtain rfl : passage = other := Option.some.inj among
        have nothing : last.bench.bus.log = course.bench.bus.log ++ passage.produced := by
          simpa [log] using passed.log_eq
        rw [passed.idle rfl, eq_comm, Passage.outcome_eq_completed_iff]
        rw [Bus.reports, nothing]
        exact goesOn
    | cons next rest =>
        rw [List.getLast?_cons_cons] at among
        exact passed.ending other among
  whole all := congrArg _ (passed.whole all)
  idle none := absurd none (List.cons_ne_nil _ _)
  id_eq := passed.id_eq.trans id
  state := passed.state
  failure := by rw [passed.failure, failure]
  written := by
    obtain ⟨before, count, rfl⟩ := passed.written
    exact ⟨steps ++ before, count, (List.append_assoc ..).symm⟩

theorem idle_of_changed (supply : Supply) (course : Course) (count : Nat) :
    course.Passed supply workflow untilPhase []
      ((course.changed supply .completed).persisted count) [] .completed
      (course.changed supply .completed) where
  planned := List.prefix_rfl
  taken := nofun
  visits := rfl
  log_eq := (List.append_nil _).symm
  onward _ _ _ split _ := by simp at split
  ending := nofun
  whole _ := rfl
  idle _ := rfl
  id_eq := rfl
  state := rfl
  failure := (Bool.or_false _).symm
  written := ⟨[], count, rfl⟩

theorem single (taken : passage.Taken supply course.execution.id) {rest : List PlannedPhase}
    {count : Nat}
    (log : last.bench.bus.log = course.bench.bus.log ++ passage.produced)
    (ending : outcome = passage.outcome workflow untilPhase last.bench.bus.reports)
    (unfinished : outcome ≠ .completed)
    (id : last.execution.id = course.execution.id)
    (state : last.execution.state = outcome.state)
    (failure : last.execution.failure = (course.execution.failure || outcome.isFailure)) :
    course.Passed supply workflow untilPhase (passage.planned :: rest)
      (passage.visits.map .visit ++ last.persisted count) [passage] outcome last where
  planned := ⟨rest, rfl⟩
  taken := List.forall_mem_singleton.mpr taken
  visits := by rw [RunStep.visits_of_phase, List.flatMap_singleton]
  log_eq := by rw [log, List.flatMap_singleton]
  onward before other behind split more := by
    have one := congrArg List.length split
    have some := List.length_pos_of_ne_nil more
    simp only [List.length_cons, List.length_nil, List.length_append] at one
    omega
  ending other among := Option.some.inj among ▸ ending
  whole all := absurd all unfinished
  idle none := absurd none (List.cons_ne_nil _ _)
  id_eq := id
  state := state
  failure := failure
  written := ⟨_, count, rfl⟩

end Passed

variable (supply : Supply) {workflow : Workflow} {untilPhase : Option String}
  {plan : List PlannedPhase} {course : Course} {isLastWanted : Phase → Bool}

/-- The actors of a phase take their turns in the order of the plan, all of them if it succeeds. -/
theorem tryPhase_taken (course : Course) (isLastWanted : Phase → Bool) (planned : PlannedPhase) :
    Passage.Taken ⟨planned, (course.tryPhase supply isLastWanted planned).visits⟩ supply
      course.execution.id := by
  let begun := course.record supply (some planned.phase.name) "phase_started" ""
  obtain ⟨ran, first, same, -, ends⟩ := Visit.makeAll_eq_runThrough supply course.execution
    planned.phase.name (ActorResult.goesOn planned.phase.errorPolicy) planned.actors begun.bench
  refine ⟨ran, course.execution, begun.bench, rfl, first, congrArg Prod.fst same, ?_⟩
  intro succeeded
  refine ends.resolve_right fun ⟨last, among, stops⟩ => ?_
  have failed := PhaseResult.failed_iff_stops.mpr
    ⟨last.outcome, List.mem_map_of_mem (List.mem_of_getLast? among), stops⟩
  cases failed.symm.trans succeeded

theorem failure_heeded (course : Course) (verdict : Verdict) :
    (course.heeded supply verdict).execution.failure = course.execution.failure := by
  unfold heeded
  cases verdict.state? <;> rfl

/-- What a phase comes to is told by its actors' turns and by what is on the bus behind them. -/
theorem tryPhase_passage (course : Course) (planned : PlannedPhase)
    (early : isLastWanted planned.phase = workflow.endsEarly untilPhase planned.phase) :
    let trial := course.tryPhase supply isLastWanted planned
    let passage : Passage := ⟨planned, trial.visits⟩
    passage.Taken supply course.execution.id ∧ trial.result = passage.result ∧
      trial.course.bench.bus.log = course.bench.bus.log ++ passage.produced ∧
      passage.outcome workflow untilPhase trial.course.bench.bus.reports =
        (trial.verdict.outcome? planned.phase.name).getD .completed ∧
      trial.course.execution.id = course.execution.id ∧
      trial.course.execution.state = course.execution.state ∧
      trial.course.execution.failure = (course.execution.failure ||
        ((trial.verdict.outcome? planned.phase.name).map RunOutcome.isFailure).getD false) := by
  intro trial passage
  have tried := tryPhase_spec course supply isLastWanted planned
  obtain ⟨time, noted⟩ := tried.execution_eq
  have judged : trial.verdict = .ofResult planned.phase passage.result trial.course.bench.bus
    (workflow.endsEarly untilPhase planned.phase) := early ▸ rfl
  refine ⟨tryPhase_taken supply course isLastWanted planned, rfl, tried.log_eq, ?_, ?_, ?_, ?_⟩
  · rw [judged]
    exact passage.outcome_eq_verdict trial.course.bench.bus
  · rw [noted]
    cases trial.verdict <;> rfl
  · rw [noted, state_note]
  · rw [noted, Verdict.failure_note]

/-- A run goes through the first phases of its plan and ends as the last of them says. -/
theorem runPhases_passed (mayRun : course.MayRun plan)
    (early : ∀ planned ∈ plan,
      isLastWanted planned.phase = workflow.endsEarly untilPhase planned.phase) :
    ∃ steps passages outcome last, runPhases supply isLastWanted plan course =
        ⟨steps, .ok (passages.map fun passage => passage.result.summary, outcome, last)⟩ ∧
      course.Passed supply workflow untilPhase plan steps passages outcome last := by
  induction plan generalizing course with
  | nil =>
      exact ⟨_, [], .completed, course.changed supply .completed,
        runPhases_nil mayRun.completed_mem isLastWanted, .idle_of_changed supply course _⟩
  | cons planned rest ih =>
      have running := mayRun.running
      obtain ⟨wanted, others⟩ := List.forall_mem_cons.mp early
      have tried := tryPhase_passage supply course planned wanted
      generalize same : course.tryPhase supply isLastWanted planned = trial at tried
      obtain ⟨taken, concluded, log, decided, id, state, failure⟩ := tried
      rcases runPhases_cons_cases running same rest with
        ⟨outcome, ends, ran⟩ | ⟨onward, still, ran⟩
      · rw [concluded] at ran
        rw [ends] at decided failure
        refine ⟨_, [⟨planned, trial.visits⟩], outcome, _, ran, .single taken ?_ ?_ ?_ ?_ ?_ ?_⟩
        · rw [bus_heeded, log]
        · rw [bus_heeded, decided]
          rfl
        · exact Verdict.ne_completed_of_outcome ends
        · unfold heeded
          cases trial.verdict.state? <;> exact id
        · rw [state_heeded (state.trans running), Verdict.state?_of_outcome ends]
          rfl
        · rw [failure_heeded, failure]
          rfl
      · rw [onward, heeded_onward] at ran still
        rw [onward] at decided failure
        obtain ⟨later, passages, outcome, last, ran', passed⟩ := ih (.inl still) others
        rw [ran'] at ran
        refine ⟨_, ⟨planned, trial.visits⟩ :: passages, outcome, last,
          concluded ▸ ran, passed.cons taken ?_ (RunStep.visits_of_phase ..) log id ?_⟩
        · rw [← log]
          exact Passage.outcome_eq_completed_iff.mp decided
        · simpa [Verdict.outcome?] using failure

end Course

/-! ## Whole runs -/

theorem Workflow.getLast?_eq_some_iff {workflow : Workflow} {place : Nat} {phase : Phase}
    (found : workflow.phases[place]? = some phase) :
    workflow.phases.getLast? = some phase ↔ place + 1 = workflow.phases.length := by
  have inside := (List.getElem?_eq_some_iff.mp found).1
  rw [List.getLast?_eq_getElem?]
  constructor
  · intro last
    have same := Workflow.place_unique found last rfl
    omega
  · intro last
    rw [← last, Nat.add_sub_cancel, found]

theorem Workflow.isLastWanted_eq_endsEarly {workflow : Workflow} {untilPhase : Option String}
    {stop : Nat} (stopped : workflow.stopPlace untilPhase = .ok stop) {phase : Phase}
    (mem : phase ∈ workflow.phases) :
    workflow.isLastWanted untilPhase stop phase = workflow.endsEarly untilPhase phase := by
  unfold isLastWanted endsEarly
  by_cases asked : untilPhase = some phase.name
  · subst asked
    obtain ⟨place, found⟩ := List.mem_iff_getElem?.mp mem
    obtain ⟨positive, placed⟩ := Workflow.position?_of_stopPlace stopped
    have here : place = stop - 1 :=
      Option.some.inj ((Workflow.position?_eq found).symm.trans placed)
    have last := Workflow.getLast?_eq_some_iff found
    have inside := (Workflow.stopPlace_spec stopped).1
    simp only [decide_true, Bool.true_and, decide_eq_decide, ne_eq, last]
    omega
  · simp [asked]

/--
What a run has gone through that has come to a result: the messages that it started with, its plan,
and how its passages through the plan make up the result.
-/
structure RunResult.Reflects (result : RunResult) (supply : Supply) (workflow : Workflow)
    (untilPhase : Option String) (log : List Message) (plan : List PlannedPhase)
    (passages : List Passage) : Prop where
  planned : passages.map Passage.planned <+: plan
  taken : ∀ passage ∈ passages, passage.Taken supply result.executionId
  summaries : result.phases = passages.map fun passage => passage.result.summary
  reports : result.reports = Message.reports (log ++ passages.flatMap Passage.produced)
  /-- Behind every passage but the last one the run goes on, with the reports of that moment. -/
  onward : ∀ before passage behind, passages = before ++ passage :: behind → behind ≠ [] →
    passage.GoesOn workflow untilPhase
      (Message.reports (log ++ (before ++ [passage]).flatMap Passage.produced))
  /-- The last passage decides on the outcome, with all reports. -/
  ending : ∀ passage ∈ passages.getLast?,
    result.outcome = passage.outcome workflow untilPhase result.reports
  idle : passages = [] → result.outcome = .completed
  whole : result.outcome = .completed → passages.map Passage.planned = plan
  state : result.state = result.outcome.state

namespace Course

variable {supply : Supply} {workflow : Workflow} {untilPhase : Option String}
  {plan : List PlannedPhase} {course : Course} {isLastWanted : Phase → Bool} {entry : Entry}
  {bench : Workbench}

theorem failure_of_opens {written : Execution} (opens : entry.Opens written)
    (fresh : entry.resumes = false → entry.execution.failure = false) :
    written.id = entry.execution.id ∧ written.failure = false := by
  cases opens with
  | begun begins _ _ => exact ⟨rfl, fresh begins⟩
  | resumed _ _ _ => exact ⟨rfl, rfl⟩

theorem visits_opening (bindings : List (String × String)) (written : Execution) :
    (setting bindings ++ [RunStep.save written]).filterMap RunStep.visit? = [] := by
  simp [setting, RunStep.visit?]

/-- A run that is to come to a result reflects it in the record that it writes last. -/
theorem account_reflects (logged : bench.bus.log = entry.journal.messages)
    (fresh : entry.resumes = false → entry.execution.failure = false)
    (early : ∀ planned ∈ plan,
      isLastWanted planned.phase = workflow.endsEarly untilPhase planned.phase)
    {result : RunResult}
    (ended : (account supply entry bench isLastWanted plan).ended = .ok result) :
    ∃ passages before record,
      (account supply entry bench isLastWanted plan).steps = before ++ [.save record] ∧
      (account supply entry bench isLastWanted plan).steps.filterMap RunStep.visit? =
        passages.flatMap Passage.visits ∧
      result.Reflects supply workflow untilPhase entry.journal.messages plan passages ∧
      result.executionId = entry.execution.id ∧ record.id = result.executionId ∧
      record.state = result.state ∧ record.failure = result.outcome.isFailure := by
  rcases opening_cases logged with
    ⟨bindings, written, course, opened, opens, continues, state⟩ | ⟨_, _, opened⟩
  · obtain ⟨own, unmarked⟩ := failure_of_opens opens fresh
    have clean : course.execution.failure = false := by
      obtain ⟨time, same⟩ := continues.execution_eq
      rw [same]
      exact unmarked
    obtain ⟨steps, passages, outcome, last, ran, passed⟩ :=
      runPhases_passed supply (mayRun_of_opened state) early
    rw [account_eq opened, ran] at ended ⊢
    obtain rfl := Except.ok.inj ended
    obtain ⟨before, count, rfl⟩ := passed.written
    refine ⟨passages, setting bindings ++ [.save written] ++ before ++
      [.saveJournal last.execution.id ⟨last.bench.bus.log.take count, last.bench.trail⟩],
      last.execution, ?_, ?_, ?_, ?_, rfl, rfl, ?_⟩
    · simp [persisted]
    · rw [List.filterMap_append, visits_opening, passed.visits, List.nil_append]
    · have log := continues.log_eq
      exact {
        planned := passed.planned
        taken := by
          have taken := passed.taken
          rw [← passed.id_eq] at taken
          exact taken
        summaries := rfl
        reports := congrArg Message.reports (log ▸ passed.log_eq)
        onward := log ▸ passed.onward
        ending := passed.ending
        idle := passed.idle
        whole := passed.whole
        state := passed.state }
    · exact passed.id_eq.trans (continues.id_eq.trans own)
    · rw [passed.failure, clean, Bool.false_or]
  · rw [account_eq_error opened] at ended
    cases ended

end Course

theorem EndedRun.visits_eq {σ : Type} (run : EndedRun σ) :
    run.visits = run.steps.filterMap RunStep.visit? :=
  List.filterMap_congr fun step _ => by cases step <;> rfl

section

variable {σ : Type} [Store σ] {setting : Setting} {supply : Supply} {request : RunRequest}
  {options : RunOptions} {answers : Answers} {store : σ} {entry : Entry}

theorem Setting.start_of_entry (h : (setting.entry supply request store).1 = .ok entry) :
    setting.workflow.placeAfter entry.execution = .ok entry.start ∧
      (request.resumes = false → entry.start = 0) ∧
      (entry.resumes = false → entry.execution.failure = false) := by
  cases request with
  | fresh kind configuration =>
      cases h
      exact ⟨rfl, fun _ => rfl, fun _ => rfl⟩
  | resume kind id =>
      obtain ⟨execution, place, journal, _, _, _, placed, _, rfl⟩ := Entry.resume_eq_ok h
      exact ⟨(Workflow.resumePlace_spec placed).2.1, nofun, nofun⟩

theorem RunStep.perform_last {before : List RunStep} {step : RunStep} {last : σ}
    (h : performAll (before ++ [step]) store = (before ++ [step], .ok (), last)) :
    ∃ there, step.perform there = (.ok (), last) := by
  have part : before <+: (performAll (before ++ [step]) store).1 := by
    rw [h]
    exact List.prefix_append before [step]
  obtain ⟨there, earlier⟩ := performAll_of_prefix part
  rw [performAll_append earlier] at h
  obtain ⟨whole, ended⟩ := Prod.mk.inj h
  obtain ⟨next, performed, same⟩ := performAll_cons_eq_ok_iff.mp
    (Prod.ext (List.append_cancel_left whole) ended)
  cases same
  exact ⟨there, performed⟩

/--
A run that comes to a result has gone through the phases of its plan, from the first one on, and
ends as the last of them says. The last that it does is to save a record that says the same.
-/
theorem Setting.run_reflects {result : RunResult}
    (ended : (setting.run supply request options answers store).result = .ok result) :
    let run := setting.run supply request options answers store
    ∃ entry stop plan passages record there,
      (setting.entry supply request store).1 = .ok entry ∧
      setting.workflow.placeAfter entry.execution = .ok entry.start ∧
      (request.resumes = false → entry.start = 0) ∧
      setting.workflow.stopPlace options.untilPhase = .ok stop ∧
      setting.plan (options.filtersFor entry.execution.configuration) entry.start stop = .ok plan ∧
      plan.map PlannedPhase.phase = (setting.workflow.phases.take stop).drop entry.start ∧
      run.visits = passages.flatMap Passage.visits ∧
      result.Reflects supply setting.workflow options.untilPhase entry.journal.messages plan
        passages ∧
      result.executionId = entry.execution.id ∧
      Store.save record there = (.ok (), run.store) ∧ record.id = result.executionId ∧
      record.state = result.state ∧ record.failure = result.outcome.isFailure := by
  intro run
  rcases setting.run_cases supply request options answers store with
    ⟨error, out, _⟩ | ⟨entry, account, entered, planned, goes⟩
  · rw [out] at ended
    cases ended
  · rw [goes] at ended
    obtain ⟨came, last, performed, carried⟩ := Account.perform_eq_of_ok ended
    obtain ⟨stop, plan, stopped, chosen, rfl⟩ := Setting.exists_plan planned
    obtain ⟨placed, zero, fresh⟩ := Setting.start_of_entry entered
    have phases := Setting.map_phase_plan chosen
    have early : ∀ planned ∈ plan,
        setting.workflow.isLastWanted options.untilPhase stop planned.phase =
          setting.workflow.endsEarly options.untilPhase planned.phase := by
      intro planned mem
      refine Workflow.isLastWanted_eq_endsEarly stopped ?_
      have among := List.mem_map_of_mem (f := PlannedPhase.phase) mem
      rw [phases] at among
      exact List.mem_of_mem_take (List.mem_of_mem_drop among)
    obtain ⟨passages, before, record, shape, visits, reflects, own, same, state, failure⟩ :=
      Course.account_reflects (entry.log_bench setting.registry.catalog answers) fresh early came
    have ran : run = _ := goes.trans performed
    rw [shape] at carried
    obtain ⟨there, saved⟩ := RunStep.perform_last carried
    refine ⟨entry, stop, plan, passages, record, there, entered, placed, zero, stopped, chosen,
      phases, ?_, reflects, own, ?_, same, state, failure⟩
    · rw [EndedRun.visits_eq, ran]
      exact visits
    · rw [ran]
      exact saved

end

/-- A run that is asked to stop behind a phase that wants a reboot is stopped, and does not wait. -/
theorem Setting.run_reflects_of_stopped :
    let setting : Setting :=
      ⟨.rebooting, ⟨.builtin, [.probe fun _ => pure ()], by simp⟩⟩
    let run := setting.run ⟨fun _ => .epoch, fun _ => default, default⟩ (.fresh .upgrade default)
      { RunOptions.none with untilPhase := some "prepare" } .empty MemoryStore.empty
    ∃ (passage : Passage) (record : Execution) (there : MemoryStore),
      passage.phase.wantsReboot = true ∧ run.visits = passage.visits ∧
      Store.save record there = (.ok (), run.store) ∧ record.state = .completed ∧
      record.failure = false := by
  intro setting run
  have comes : run.result.toOption.map (fun result =>
      (result.outcome, result.phases.map PhaseSummary.executed)) =
        some (.stopped "prepare", [["probe"]]) := by
    decide +revert
  cases ended : run.result with
  | error error =>
      rw [ended] at comes
      cases comes
  | ok result =>
      rw [ended] at comes
      obtain ⟨outcome, executed⟩ := Prod.mk.inj (Option.some.inj comes)
      obtain ⟨entry, stop, plan, passages, record, there, _, _, zero, stopped, _, phases, visits,
        reflects, _, saved, _, state, failure⟩ := Setting.run_reflects ended
      have summaries := reflects.summaries ▸ executed
      obtain ⟨passage, rfl⟩ : ∃ passage, passages = [passage] := by
        rw [List.map_map, List.map_eq_singleton_iff] at summaries
        obtain ⟨passage, one, _⟩ := summaries
        exact ⟨passage, one⟩
      have here : stop = 1 := Except.ok.inj (stopped.symm.trans rfl)
      refine ⟨passage, record, there, ?_, ?_, saved, ?_, ?_⟩
      · obtain ⟨rest, rfl⟩ := reflects.planned
        have head := (List.cons.inj (phases.trans (by rw [zero rfl, here]; rfl))).1
        exact (congrArg Phase.wantsReboot head).trans rfl
      · rw [visits, List.flatMap_singleton]
      · rw [state, reflects.state, outcome]
        rfl
      · rw [failure, outcome]
        rfl

end PhasedUpgrade
