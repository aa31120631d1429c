import PhasedUpgrade.Proofs.Run.AuditTrail
import PhasedUpgrade.Proofs.Run.Durability

/-!
# What a trail tells of a run

A run that comes to a result has told all of it in the audit trail, and nothing else: the changes of
state, each phase that it went through, and in it the begin and the end of each actor. The last
journal that is written has the trail up to its last event.
-/

namespace PhasedUpgrade

open LawfulStore (holdings)

/-! ## Entries behind a trail -/

namespace Audit

def Event.entry (event : Event) : Entry where
  execution := event.execution
  phase := event.phase
  actor := event.actor
  action := event.action
  result := event.result

def Records (entries : List Entry) (trail later : List Event) : Prop :=
  ∃ events, later = trail ++ events ∧ events.map Event.entry = entries

namespace Records

variable {first second : List Entry} {a b c : List Event}

theorem refl (trail : List Event) : Records [] trail trail :=
  ⟨[], (List.append_nil trail).symm, rfl⟩

theorem trans (h₁ : Records first a b) (h₂ : Records second b c) :
    Records (first ++ second) a c := by
  obtain ⟨early, rfl, rfl⟩ := h₁
  obtain ⟨late, rfl, rfl⟩ := h₂
  exact ⟨early ++ late, List.append_assoc .., List.map_append⟩

theorem record (trail : List Event) (entry : Entry) (id : EventId) (time : Time.Instant) :
    Records [entry] trail (Audit.record trail entry id time) :=
  ⟨_, rfl, rfl⟩

end Records

/-- The actors that some entries say to have ended with one of the wanted results. -/
def Entry.finished (entries : List Entry) (wanted : String → Bool) : List String :=
  (entries.filter fun entry => entry.action = "actor_finished" && wanted entry.result).filterMap
    Entry.actor

theorem Entry.finished_append (first second : List Entry) (wanted : String → Bool) :
    finished (first ++ second) wanted = finished first wanted ++ finished second wanted := by
  simp [finished]

end Audit

open Audit (Records)

def ExecutionState.told (state : ExecutionState) (execution : ExecutionId) : Audit.Entry :=
  ⟨execution, none, none, "state_changed", state.name⟩

def Outcome.told (outcome : Outcome) (execution : ExecutionId) (phase : String) :
    List Audit.Entry :=
  [⟨execution, some phase, some outcome.actor, "actor_started", ""⟩,
    ⟨execution, some phase, some outcome.actor, "actor_finished", outcome.result.label⟩]

def PhaseResult.told (result : PhaseResult) (execution : ExecutionId) : List Audit.Entry :=
  ⟨execution, some result.phase, none, "phase_started", ""⟩ ::
    result.outcomes.flatMap (·.told execution result.phase) ++
      [⟨execution, some result.phase, none, "phase_finished", result.status.name⟩]

/-! ## Labels of actors -/

namespace PhaseResult

/-- The entries for a phase tell of each of its actors once, with the label of its result. -/
theorem finished_told (result : PhaseResult) (execution : ExecutionId) (wanted : String → Bool) :
    Audit.Entry.finished (result.told execution) wanted =
      (result.outcomes.filter fun outcome => wanted outcome.result.label).map Outcome.actor := by
  have turns (outcomes : List Outcome) :
      Audit.Entry.finished (outcomes.flatMap (·.told execution result.phase)) wanted =
        (outcomes.filter fun outcome => wanted outcome.result.label).map Outcome.actor := by
    induction outcomes with
    | nil => rfl
    | cons outcome rest ih =>
        rw [List.flatMap_cons, Audit.Entry.finished_append, ih, List.filter_cons]
        by_cases there : wanted outcome.result.label = true <;>
          simp [Audit.Entry.finished, Outcome.told, there]
  rw [told, ← List.singleton_append, List.append_assoc, Audit.Entry.finished_append,
    Audit.Entry.finished_append, turns]
  simp [Audit.Entry.finished]

theorem errors_conclude (phase : Phase) (outcomes : List Outcome) :
    (conclude phase outcomes).errors.map ActorFailure.actor =
      (outcomes.filter fun outcome => outcome.result.label ≠ "completed" &&
        outcome.result.label ≠ "skipped").map Outcome.actor := by
  show (outcomes.filterMap Outcome.failure?).map ActorFailure.actor = _
  induction outcomes with
  | nil => rfl
  | cons outcome rest ih =>
      obtain ⟨actor, result⟩ := outcome
      rw [List.filterMap_cons, List.filter_cons]
      cases result with
      | completed | skipped _ | violation _ | failed _ =>
        simpa [Outcome.failure?, ActorResult.failure?, ActorResult.label] using ih
      | fatal reason details =>
        cases details <;>
          simpa [Outcome.failure?, ActorResult.failure?, ActorResult.label] using ih

end PhaseResult

/-- The lists of a summary are those of the actors that some entries tell to have completed, to have
been skipped and to have come to any other result. -/
structure PhaseSummary.ToldBy (summary : PhaseSummary) (entries : List Audit.Entry) : Prop where
  executed : Audit.Entry.finished entries (· = "completed") = summary.executed
  skipped : Audit.Entry.finished entries (· = "skipped") = summary.skipped
  errors : Audit.Entry.finished entries (fun label => label ≠ "completed" && label ≠ "skipped") =
    summary.errors.map ActorFailure.actor

theorem PhaseResult.toldBy_conclude (phase : Phase) (outcomes : List Outcome)
    (execution : ExecutionId) :
    (conclude phase outcomes).summary.ToldBy ((conclude phase outcomes).told execution) where
  executed := by
    refine (finished_told _ execution _).trans (congrArg _ (List.filter_congr fun outcome _ => ?_))
    cases outcome.result <;> rfl
  skipped := by
    refine (finished_told _ execution _).trans (congrArg _ (List.filter_congr fun outcome _ => ?_))
    cases outcome.result <;> rfl
  errors := (finished_told _ execution _).trans (errors_conclude phase outcomes).symm

/-! ## Phases -/

namespace Visit

variable (supply : Supply)

theorem records_make (execution : Execution) (phase : String) (actor : Actor) (bench : Workbench) :
    Records ((make supply execution phase actor bench).1.outcome.told execution.id phase)
      bench.trail (make supply execution phase actor bench).2.trail := by
  let begun := bench.record supply (entry execution phase actor.name "actor_started" "")
  let ended := Program.run supply actor.toContract phase
    (actor.behave ⟨actor.name, phase, execution⟩) begun
  have same : ended.2.1.trail = begun.trail := Program.trail_run ..
  have started : Records _ bench.trail begun.trail := .record ..
  have finished : Records _ ended.2.1.trail (make supply execution phase actor bench).2.trail :=
    .record ..
  rw [same] at finished
  exact started.trans finished

/-- Actors take their turns in the order in which they are listed, up to one that ends them. -/
theorem records_makeAll (execution : Execution) (phase : String) (goesOn : ActorResult → Bool)
    (actors : List Actor) (bench : Workbench) :
    let made := makeAll supply execution phase goesOn actors bench
    Records ((made.1.map outcome).flatMap (·.told execution.id phase)) bench.trail made.2.trail ∧
      (made.1.map outcome).map Outcome.actor <+: actors.map (·.name) := by
  induction actors generalizing bench with
  | nil => exact ⟨.refl _, List.prefix_rfl⟩
  | cons actor rest ih =>
      have turn := records_make supply execution phase actor bench
      obtain ⟨turns, order⟩ := ih (make supply execution phase actor bench).2
      simp only [makeAll]
      split
      · refine ⟨turn.trans turns, ?_⟩
        exact List.cons_prefix_cons.mpr ⟨rfl, order⟩
      · refine ⟨by simpa using turn, ?_⟩
        exact List.cons_prefix_cons.mpr ⟨rfl, List.nil_prefix⟩

end Visit

/-- A phase that has been gone through as planned: what its actors came to, one after the other. -/
structure PhaseResult.Follows (result : PhaseResult) (planned : PlannedPhase) : Prop where
  concluded : result = .conclude planned.phase result.outcomes
  order : result.outcomes.map Outcome.actor <+: planned.actors.map (·.name)

theorem PhaseResult.Follows.toldBy {result : PhaseResult} {planned : PlannedPhase}
    (follows : result.Follows planned) (execution : ExecutionId) :
    result.summary.ToldBy (result.told execution) := by
  rw [follows.concluded]
  exact toldBy_conclude planned.phase result.outcomes execution

/-! ## Turns among steps -/

def PhaseResult.turns (result : PhaseResult) : List (String × Outcome) :=
  result.outcomes.map fun outcome => (result.phase, outcome)

namespace RunStep

def visit? : RunStep → Option Visit
  | .visit turn => some turn
  | .setVariable _ _ | .save _ | .saveJournal _ _ => none

def turns (steps : List RunStep) : List (String × Outcome) :=
  (steps.filterMap visit?).map fun visit => (visit.phase, visit.outcome)

theorem turns_append (first second : List RunStep) :
    turns (first ++ second) = turns first ++ turns second := by
  simp [turns]

theorem turns_persisted (course : Course) (count : Nat) : turns (course.persisted count) = [] :=
  rfl

theorem turns_opening (bindings : List (String × String)) (written : Execution) :
    turns (Course.setting bindings ++ [.save written]) = [] := by
  have none : (Course.setting bindings).filterMap visit? = [] := by
    simp [Course.setting, visit?]
  rw [turns_append, turns, none]
  rfl

theorem turns_visits {visits : List Visit} {result : PhaseResult}
    (own : ∀ visit ∈ visits, visit.phase = result.phase)
    (outcomes : result.outcomes = visits.map Visit.outcome) :
    turns (visits.map .visit) = result.turns := by
  have all : (visits.map RunStep.visit).filterMap visit? = visits := by
    rw [List.filterMap_map]
    exact List.filterMap_some
  rw [turns, all, PhaseResult.turns, outcomes, List.map_map]
  exact List.map_congr_left fun visit mem => by rw [own visit mem]; rfl

end RunStep

theorem EndedRun.map_turn_visits {σ : Type} (run : EndedRun σ) :
    run.visits.map (fun visit => (visit.phase, visit.outcome)) = RunStep.turns run.steps := by
  refine congrArg _ (List.filterMap_congr fun step _ => ?_)
  cases step <;> rfl

/-! ## Runs through phases -/

theorem Verdict.exists_state_of_outcome {verdict : Verdict} {phase : String} {outcome : RunOutcome}
    (ends : verdict.outcome? phase = some outcome) : ∃ state, verdict.state? = some state := by
  cases verdict with
  | onward => cases ends
  | failed _ _ | inhibited _ | stopped | reboot _ => exact ⟨_, rfl⟩

/-- What a run through phases leaves behind: the results of the first phases of its plan. -/
structure Course.Traced (course : Course) (plan : List PlannedPhase) (steps : List RunStep)
    (results : List PhaseResult) (last : Course) : Prop where
  id_eq : last.execution.id = course.execution.id
  planned : List.Forall₂ PhaseResult.Follows results (plan.take results.length)
  turns : RunStep.turns steps = results.flatMap PhaseResult.turns
  recorded : Records (results.flatMap (·.told course.execution.id) ++
    [last.execution.state.told course.execution.id]) course.bench.trail last.bench.trail
  /-- The last that is written is where the run stands at its end. -/
  written : ∃ before count, steps = before ++ last.persisted count

namespace Course

variable {supply : Supply} {course after : Course} {planned : PlannedPhase}
  {plan rest : List PlannedPhase}

variable (supply) in
theorem records_changed (course : Course) (state : ExecutionState) :
    Records [state.told course.execution.id] course.bench.trail
      (course.changed supply state).bench.trail :=
  .record ..

variable (supply) in
/-- A phase is gone through as planned and told of while it lasts. -/
theorem tryPhase_traced (course : Course) (isLastWanted : Phase → Bool) (planned : PlannedPhase) :
    let trial := course.tryPhase supply isLastWanted planned
    trial.result.Follows planned ∧ trial.course.execution.id = course.execution.id ∧
      RunStep.turns (trial.visits.map .visit) = trial.result.turns ∧
      Records (trial.result.told course.execution.id) course.bench.trail
        trial.course.bench.trail := by
  intro trial
  let begun := course.record supply (some planned.phase.name) "phase_started" ""
  obtain ⟨turns, order⟩ := Visit.records_makeAll supply course.execution planned.phase.name
    (ActorResult.goesOn planned.phase.errorPolicy) planned.actors begun.bench
  have started : Records _ course.bench.trail begun.bench.trail := .record ..
  obtain ⟨own, -, ⟨time, noted⟩, -, -⟩ := tryPhase_spec course supply isLastWanted planned
  refine ⟨⟨rfl, order⟩, ?_, ?_, (started.trans turns).trans (.record ..)⟩
  · show (course.tryPhase supply isLastWanted planned).course.execution.id = _
    rw [noted]
    cases (course.tryPhase supply isLastWanted planned).verdict <;> rfl
  · exact RunStep.turns_visits (fun visit mem => (own visit mem).phase_eq) rfl

theorem Traced.cons {steps later : List RunStep} {result : PhaseResult}
    {results : List PhaseResult} {last : Course} (traced : after.Traced rest later results last)
    (same : after.execution.id = course.execution.id) (follows : result.Follows planned)
    (turns : RunStep.turns steps = result.turns)
    (recorded : Records (result.told course.execution.id) course.bench.trail after.bench.trail) :
    course.Traced (planned :: rest) (steps ++ later) (result :: results) last where
  id_eq := traced.id_eq.trans same
  planned := .cons follows traced.planned
  turns := by rw [RunStep.turns_append, turns, traced.turns, List.flatMap_cons]
  recorded := by
    have whole := recorded.trans traced.recorded
    rwa [same, ← List.append_assoc] at whole
  written := by
    obtain ⟨before, count, rfl⟩ := traced.written
    exact ⟨steps ++ before, count, (List.append_assoc ..).symm⟩

/-- A run goes through phases of its plan and tells of each, and last of the state it ends in. -/
theorem runPhases_traced (mayRun : course.MayRun plan) (isLastWanted : Phase → Bool) :
    ∃ steps results outcome last, runPhases supply isLastWanted plan course =
        ⟨steps, .ok (results.map PhaseResult.summary, outcome, last)⟩ ∧
      course.Traced plan steps results last := by
  induction plan generalizing course with
  | nil =>
      refine ⟨_, [], .completed, course.changed supply .completed,
        runPhases_nil mayRun.completed_mem isLastWanted, rfl, .nil, rfl, .record .., [], _, rfl⟩
  | cons planned rest ih =>
      have running := mayRun.running
      obtain ⟨follows, same, turns, recorded⟩ := tryPhase_traced supply course isLastWanted planned
      generalize tried : course.tryPhase supply isLastWanted planned = trial
        at follows same turns recorded
      have passed (after : Course) : RunStep.turns (trial.visits.map .visit ++
          after.persisted (course.keptBy trial after)) = trial.result.turns := by
        rw [RunStep.turns_append, turns, RunStep.turns_persisted, List.append_nil]
      rcases runPhases_cons_cases running tried rest with
        ⟨outcome, ends, ran⟩ | ⟨onward, still, ran⟩
      -- A run that ends here has changed its state once more, behind what it tells of the phase.
      · obtain ⟨state, changes⟩ := Verdict.exists_state_of_outcome ends
        have heeded : trial.course.heeded supply trial.verdict =
            trial.course.changed supply state := by
          rw [Course.heeded, changes]
        rw [heeded] at ran
        refine ⟨_, [trial.result], outcome, _, ran, same, .cons follows .nil, ?_, ?_, _, _, rfl⟩
        · rw [passed, List.flatMap_singleton]
        · have last := records_changed supply trial.course state
          rw [same] at last
          show Records (_ ++ [state.told _]) _ _
          simpa using recorded.trans last
      · rw [onward, heeded_onward] at ran still
        obtain ⟨later, results, outcome, last, others, traced⟩ := ih (.inl still)
        rw [others] at ran
        exact ⟨_, trial.result :: results, outcome, last, ran,
          traced.cons same follows (passed trial.course) recorded⟩

end Course

/-! ## Whole runs -/

def ExecutionState.opening (resumes hasPhases : Bool) : List ExecutionState :=
  if resumes then if hasPhases then [.resumed, .running] else [.resumed] else [.running]

/-- All that a trail is to tell of a run: the states that it changes to before its first phase, the
phases that it goes through, and the state that it comes to behind the last one. -/
structure RunResult.Told (result : RunResult) (resumes : Bool) (plan : List PlannedPhase)
    (results : List PhaseResult) (turns : List (String × Outcome)) (entries : List Audit.Entry) :
    Prop where
  summaries : result.phases = results.map PhaseResult.summary
  planned : List.Forall₂ PhaseResult.Follows results (plan.take results.length)
  turns_eq : turns = results.flatMap PhaseResult.turns
  entries_eq : entries =
    (ExecutionState.opening resumes (!plan.isEmpty)).map (·.told result.executionId) ++
      results.flatMap (·.told result.executionId) ++ [result.state.told result.executionId]

namespace Course

variable {supply : Supply} {course : Course} {plan : List PlannedPhase} {entry : Entry}
  {bench : Workbench} {hasPhases : Bool} {steps : List RunStep}

theorem opening_records (opened : opening supply entry bench hasPhases = ⟨steps, .ok course⟩) :
    course.execution.id = entry.execution.id ∧
      Records ((ExecutionState.opening entry.resumes hasPhases).map (·.told entry.execution.id))
        bench.trail course.bench.trail := by
  unfold opening at opened
  cases resumes : entry.resumes with
  | false =>
      rw [resumes, if_neg Bool.false_ne_true] at opened
      by_cases legal : .running ∈ entry.execution.state.successors
      · rw [begin_eq legal] at opened
        cases opened
        exact ⟨rfl, .record ..⟩
      · rw [begin_eq_error legal] at opened
        cases opened
  | true =>
      rw [resumes, if_pos rfl] at opened
      by_cases legal : .resumed ∈ entry.execution.state.successors
      · rw [resume_eq legal] at opened
        cases opened
        have taken := records_changed supply
          ⟨entry.execution.clearFailure, bench⟩ .resumed
        cases hasPhases with
        | true => exact ⟨rfl, taken.trans (.record ..)⟩
        | false => exact ⟨rfl, taken⟩
      · rw [resume_eq_error legal] at opened
        cases opened

/-- A run that is to come to a result tells of it, and writes all that it tells. -/
theorem account_told {isLastWanted : Phase → Bool} {result : RunResult}
    (logged : bench.bus.log = entry.journal.messages)
    (ended : (account supply entry bench isLastWanted plan).ended = .ok result) :
    result.executionId = entry.execution.id ∧
    ∃ (results : List PhaseResult) (before : List RunStep) (journal : Journal) (last : Execution),
      (account supply entry bench isLastWanted plan).steps =
        before ++ [.saveJournal entry.execution.id journal, .save last] ∧
      ∃ entries, Records entries bench.trail journal.audit ∧
        result.Told entry.resumes plan results
          (RunStep.turns (account supply entry bench isLastWanted plan).steps) entries := by
  rcases opening_cases logged with
    ⟨bindings, written, course, opened, _, _, state⟩ | ⟨_, _, opened⟩
  · rw [account_eq opened] at ended ⊢
    have mayRun : course.MayRun plan := mayRun_of_opened state
    obtain ⟨same, begun⟩ := opening_records opened
    obtain ⟨later, results, outcome, last, ran, traced⟩ := runPhases_traced mayRun isLastWanted
    have own : last.execution.id = entry.execution.id := traced.id_eq.trans same
    obtain ⟨before, count, whole⟩ := traced.written
    rw [ran] at ended ⊢
    obtain rfl := Except.ok.inj ended
    refine ⟨own, results, setting bindings ++ [.save written] ++ before,
      ⟨last.bench.bus.log.take count, last.bench.trail⟩, last.execution, ?_, _,
      begun.trans traced.recorded, rfl, traced.planned, ?_, ?_⟩
    · show _ ++ later = _
      rw [whole, ← own]
      simp [persisted]
    · show RunStep.turns (_ ++ later) = _
      rw [RunStep.turns_append, RunStep.turns_opening, traced.turns, List.nil_append]
    · simp only [own, same, List.append_assoc]
  · rw [account_eq_error opened] at ended
    cases ended

end Course

section

variable {σ : Type} [Store σ]

theorem Account.perform_eq_of_ok {account : Account RunResult} {store : σ} {result : RunResult}
    (h : (account.perform store).result = .ok result) :
    account.ended = .ok result ∧ ∃ last, account.perform store = ⟨.ok result, account.steps, last⟩ ∧
      RunStep.performAll account.steps store = (account.steps, .ok (), last) := by
  have all := (RunStep.performAll_prefix account.steps store).2
  unfold perform at h ⊢
  rcases performed : RunStep.performAll account.steps store with ⟨done, cause | ⟨⟨⟩⟩, last⟩
  · simp [performed] at h
  · simp only [performed] at h all ⊢
    obtain rfl : done = account.steps := all trivial
    exact ⟨h, last, by rw [h], rfl⟩

end

section

variable {σ : Type} [LawfulStore σ] {setting : Setting} {supply : Supply} {request : RunRequest}
  {store : σ} {entry : Entry}

def RunRequest.resumes : RunRequest → Bool
  | .fresh _ _ => false
  | .resume _ _ => true

def RunRequest.loaded (request : RunRequest) (held : Holdings) (id : ExecutionId) :
    List Audit.Event :=
  if request.resumes then (held.journal id).audit else []

theorem Setting.loaded_of_entry (h : (setting.entry supply request store).1 = .ok entry) :
    entry.resumes = request.resumes ∧
      entry.journal.audit = request.loaded (holdings store) entry.execution.id := by
  have resumes : entry.resumes = request.resumes := by
    cases request with
    | fresh kind configuration =>
        cases h
        rfl
    | resume kind id =>
        obtain ⟨_, _, _, _, _, _, _, _, rfl⟩ := Entry.resume_eq_ok h
        rfl
  refine ⟨resumes, ?_⟩
  rw [RunRequest.loaded, ← resumes]
  rcases Setting.entry_eq_ok h with ⟨_, _, _, _, rfl⟩ | ⟨_, _, _, rfl⟩ <;> rfl

theorem Holdings.journal_behind (held : Holdings) (before : List RunStep) (id : ExecutionId)
    (journal : Journal) (last : Execution) :
    (held.behind (before ++ [.saveJournal id journal, .save last])).journal id = journal := by
  rw [behind, List.foldl_append]
  exact if_pos rfl

/-- A run that comes to a result leaves a journal whose audit trail goes on from the one that it
took up, with all that has happened and nothing else. -/
theorem Setting.run_trace {options : RunOptions} {answers : Answers} {result : RunResult}
    (ended : (setting.run supply request options answers store).result = .ok result) :
    let run := setting.run supply request options answers store
    ∃ entry stop plan results events,
      (setting.entry supply request store).1 = .ok entry ∧
      entry.execution.id = result.executionId ∧
      setting.workflow.stopPlace options.untilPhase = .ok stop ∧
      setting.plan (options.filtersFor entry.execution.configuration) entry.start stop = .ok plan ∧
      ((holdings run.store).journal result.executionId).audit =
        request.loaded (holdings store) result.executionId ++ events ∧
      result.Told request.resumes plan results
        (run.visits.map fun visit => (visit.phase, visit.outcome))
        (events.map Audit.Event.entry) ∧
      ∀ phase ∈ results, phase.summary.ToldBy (phase.told result.executionId) := by
  intro run
  rcases setting.run_cases supply request options answers store with
    ⟨error, out, _⟩ | ⟨entry, account, entered, planned, goes⟩
  · rw [out] at ended
    cases ended
  · rw [goes] at ended
    obtain ⟨came, last, performed, carried⟩ := Account.perform_eq_of_ok ended
    obtain ⟨stop, plan, stopped, chosen, rfl⟩ := Setting.exists_plan planned
    obtain ⟨own, results, before, journal, record, steps, entries, ⟨events, audit, rfl⟩, told⟩ :=
      Course.account_told (entry.log_bench setting.registry.catalog answers) came
    obtain ⟨resumes, loaded⟩ := Setting.loaded_of_entry entered
    have ran : run = _ := goes.trans performed
    refine ⟨entry, stop, plan, results, events, entered, own.symm, stopped, chosen, ?_, ?_, ?_⟩
    · have held := RunStep.holdings_performAll carried
      rw [ran, held, steps, own, Holdings.journal_behind, audit, ← loaded]
      rfl
    · rw [ran, EndedRun.map_turn_visits, ← resumes]
      exact told
    · have lists := told.planned.imp fun phase planned follows =>
        And.intro (follows.toldBy result.executionId) follows
      exact ((List.forall₂_and_left _ _).mp lists).1

end

/-- Of an actor that has nothing to do and of one that goes through with it the trail tells between
the first and the last change of state. -/
theorem Setting.run_trace_of_skipped :
    let skip : View → Task Unit := fun _ => throw (.recoverable "nothing to do")
    let idle : View → Task Unit := fun _ => pure ()
    let workflow : Workflow :=
      ⟨"upgrade", "upgrade", [.plain "apply" "upgrade"], List.cons_ne_nil _ _, by decide⟩
    let setting : Setting :=
      ⟨workflow, ⟨.builtin, [.tagged "check" [] [] skip, .tagged "scan" [] [] idle], by decide⟩⟩
    let run := setting.run ⟨fun _ => .epoch, fun _ => default, default⟩ (.fresh .upgrade default)
      .none .empty MemoryStore.empty
    let entries := ((holdings run.store).journal default).audit.map Audit.Event.entry
    ∃ phase : PhaseResult, phase.summary = ⟨"apply", .succeeded, ["scan"], ["check"], []⟩ ∧
      entries = [ExecutionState.running.told default] ++ phase.told default ++
        [ExecutionState.completed.told default] ∧
      Audit.Entry.finished (phase.told default) (· = "skipped") = ["check"] := by
  intro skip idle workflow setting run entries
  have summaries : run.result.toOption.map (fun result =>
      (result.executionId, result.state, result.phases)) =
        some (default, .completed, [⟨"apply", .succeeded, ["scan"], ["check"], []⟩]) := by
    decide +revert
  cases ended : run.result with
  | error error =>
      rw [ended] at summaries
      cases summaries
  | ok result =>
      rw [ended] at summaries
      obtain ⟨id, rest⟩ := Prod.mk.inj (Option.some.inj summaries)
      obtain ⟨state, phases⟩ := Prod.mk.inj rest
      obtain ⟨_, _, plan, results, events, _, _, _, _, audit, told, lists⟩ :=
        Setting.run_trace ended
      have one := told.summaries.symm.trans phases
      obtain ⟨phase, rfl, summary⟩ := List.map_eq_singleton_iff.mp one
      have trail : events.map Audit.Event.entry = [ExecutionState.running.told default] ++
          phase.told default ++ [ExecutionState.completed.told default] := by
        have all := told.entries_eq
        rw [id, state, List.flatMap_singleton] at all
        exact all
      rw [id] at audit
      refine ⟨phase, summary, ?_, ?_⟩
      · exact (congrArg (List.map Audit.Event.entry) audit).trans trail
      · have skipped := (lists phase (by simp)).skipped
        rw [id, summary] at skipped
        exact skipped

end PhasedUpgrade
