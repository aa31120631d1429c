import PhasedUpgrade.Proofs.Run.Determinism

/-!
# Runs that are alike

A run of settled actors is told by the entry, the options and the answers: whatever times and event
names it is supplied with, it takes the same steps up to these and comes to the same.
-/

namespace PhasedUpgrade

inductive RunStep.Alike : RunStep → RunStep → Prop
  | setVariable (name value : String) : Alike (.setVariable name value) (.setVariable name value)
  | visit {first second : Visit} (alike : first.Alike second) :
      Alike (.visit first) (.visit second)
  | save {first second : Execution} (same : first.timeless = second.timeless) :
      Alike (.save first) (.save second)
  | saveJournal (id : ExecutionId) {first second : Journal} (alike : first.Alike second) :
      Alike (.saveJournal id first) (.saveJournal id second)

/-! ## Accounts -/

inductive Account.EndAlike {α β : Type} (R : α → β → Prop) :
    Except RunError α → Except RunError β → Prop
  | error (error : RunError) : EndAlike R (.error error) (.error error)
  | ok {value : α} {value' : β} (alike : R value value') : EndAlike R (.ok value) (.ok value')

structure Account.Alike {α β : Type} (R : α → β → Prop) (first : Account α) (second : Account β) :
    Prop where
  steps : List.Forall₂ RunStep.Alike first.steps second.steps
  ended : EndAlike R first.ended second.ended

namespace Account

variable {α β γ δ : Type} {R : α → β → Prop} {S : γ → δ → Prop}

theorem Alike.does {first second : List RunStep} (h : List.Forall₂ RunStep.Alike first second) :
    Alike Eq (does first) (does second) :=
  ⟨h, .ok rfl⟩

theorem Alike.ends {first : Except RunError α} {second : Except RunError β}
    (h : EndAlike R first second) : Alike R (ends first) (ends second) :=
  ⟨.nil, h⟩

theorem Alike.pure {value : α} {value' : β} (h : R value value') :
    Alike R (pure value : Account α) (pure value' : Account β) :=
  ⟨.nil, .ok h⟩

theorem Alike.bind {first : Account α} {second : Account β} (h : Alike R first second)
    {next : α → Account γ} {next' : β → Account δ}
    (rest : ∀ value value', R value value' → Alike S (next value) (next' value')) :
    Alike S (first >>= next) (second >>= next') := by
  obtain ⟨steps, ended⟩ := first
  obtain ⟨steps', ended'⟩ := second
  obtain ⟨same, related⟩ := h
  cases related with
  | error error =>
      rw [mk_error_bind, mk_error_bind]
      exact ⟨same, .error error⟩
  | ok alike =>
      rw [mk_ok_bind, mk_ok_bind]
      have later := rest _ _ alike
      exact ⟨List.rel_append same later.steps, later.ended⟩

end Account

/-! ## Courses -/

/-- Courses that stand at the same place, up to times. -/
structure Course.Alike (first second : Course) : Prop where
  execution : first.execution.timeless = second.execution.timeless
  bench : first.bench.Alike second.bench

structure Trial.Alike (first second : Trial) : Prop where
  visits : List.Forall₂ Visit.Alike first.visits second.visits
  result_eq : first.result = second.result
  verdict_eq : first.verdict = second.verdict
  course : first.course.Alike second.course

/-- What a phase of a run comes to, with courses that are alike behind it. -/
def Course.EndsPhaseAlike (first second : PhaseResult × Verdict × Course) : Prop :=
  first.1 = second.1 ∧ first.2.1 = second.2.1 ∧ first.2.2.Alike second.2.2

/-- What the phases of a run come to, with courses that are alike behind them. -/
def Course.EndsAlike (first second : List PhaseSummary × RunOutcome × Course) : Prop :=
  first.1 = second.1 ∧ first.2.1 = second.2.1 ∧ first.2.2.Alike second.2.2

namespace Course

open Account (EndAlike)

variable {course course' : Course}

namespace Alike

theorem record (h : course.Alike course') (supply supply' : Supply) (phase : Option String)
    (action result : String) :
    (course.record supply phase action result).Alike
      (course'.record supply' phase action result) := by
  obtain ⟨created, updated, same⟩ := Execution.exists_of_timeless h.execution
  refine ⟨h.execution, h.bench.record supply supply' ?_⟩
  rw [same]

theorem changed (h : course.Alike course') (supply supply' : Supply) (state : ExecutionState) :
    (course.changed supply state).Alike (course'.changed supply' state) := by
  obtain ⟨created, updated, same⟩ := Execution.exists_of_timeless h.execution
  have marked : Alike
      { course with execution := course.execution.marked state (course.now supply) }
      { course' with execution := course'.execution.marked state (course'.now supply') } := by
    refine ⟨?_, h.bench⟩
    rw [same]
    rfl
  exact marked.record supply supply' none "state_changed" state.name

theorem change (h : course.Alike course') (supply supply' : Supply) (state : ExecutionState) :
    EndAlike Alike (course.change supply state) (course'.change supply' state) := by
  obtain ⟨created, updated, same⟩ := Execution.exists_of_timeless h.execution
  have states : course'.execution.state = course.execution.state := by rw [same]
  by_cases allowed : state ∈ course.execution.state.successors
  · rw [change_eq_ok allowed, change_eq_ok (by rw [states]; exact allowed)]
    exact .ok (h.changed supply supply' state)
  · rw [change_eq_error allowed, change_eq_error (by rw [states]; exact allowed), states]
    exact .error _

theorem heed (h : course.Alike course') (supply supply' : Supply) (verdict : Verdict) :
    EndAlike Alike (course.heed supply verdict) (course'.heed supply' verdict) := by
  unfold Course.heed
  cases verdict.state? with
  | none => exact .ok h
  | some state => exact h.change supply supply' state

theorem persisted (h : course.Alike course') {count count' : Nat} (same : count = count') :
    List.Forall₂ RunStep.Alike (course.persisted count) (course'.persisted count') := by
  obtain ⟨created, updated, equal⟩ := Execution.exists_of_timeless h.execution
  subst same
  have own : course'.execution.id = course.execution.id := by rw [equal]
  unfold Course.persisted
  rw [own]
  exact .cons (.saveJournal _ ⟨h.bench.bus.log.take count, h.bench.trail⟩)
    (.cons (.save h.execution) .nil)

end Alike

/-! ## Phases -/

def judged (supply : Supply) (isLastWanted : Phase → Bool) (phase : Phase) (turns : List Visit)
    (course : Course) : Trial :=
  let result := PhaseResult.conclude phase (turns.map Visit.outcome)
  let course := course.record supply (some phase.name) "phase_finished" result.status.name
  let verdict := Verdict.ofResult phase result course.bench.bus (isLastWanted phase)
  ⟨turns, result, verdict,
    { course with execution := verdict.note phase.name (course.now supply) course.execution }⟩

theorem outcomes_eq {turns turns' : List Visit} (h : List.Forall₂ Visit.Alike turns turns') :
    turns.map Visit.outcome = turns'.map Visit.outcome := by
  induction h with
  | nil => rfl
  | cons here _ ih => rw [List.map_cons, List.map_cons, here.outcome_eq, ih]

namespace Alike

theorem note (h : course.Alike course') {verdict verdict' : Verdict} (same : verdict = verdict')
    (phase : String) (time time' : Time.Instant) :
    Alike { course with execution := verdict.note phase time course.execution }
      { course' with execution := verdict'.note phase time' course'.execution } := by
  obtain ⟨created, updated, equal⟩ := Execution.exists_of_timeless h.execution
  refine ⟨?_, h.bench⟩
  subst same
  rw [equal]
  cases verdict <;> rfl

theorem judged (h : course.Alike course') (supply supply' : Supply)
    (isLastWanted : Phase → Bool) (phase : Phase) {turns turns' : List Visit}
    (visits : List.Forall₂ Visit.Alike turns turns') :
    (judged supply isLastWanted phase turns course).Alike
      (judged supply' isLastWanted phase turns' course') := by
  unfold Course.judged
  simp only [outcomes_eq visits]
  have finished := h.record supply supply' (some phase.name) "phase_finished"
    (PhaseResult.conclude phase (turns'.map Visit.outcome)).status.name
  have verdict := Verdict.ofResult_alike finished.bench.bus phase
    (PhaseResult.conclude phase (turns'.map Visit.outcome)) (isLastWanted phase)
  exact ⟨visits, rfl, verdict, finished.note verdict phase.name _ _⟩

theorem tryPhase (h : course.Alike course') (supply supply' : Supply)
    (isLastWanted : Phase → Bool) {planned : PlannedPhase}
    (settled : ∀ actor ∈ planned.actors, actor.Settled) :
    (course.tryPhase supply isLastWanted planned).Alike
      (course'.tryPhase supply' isLastWanted planned) := by
  have started := h.record supply supply' (some planned.phase.name) "phase_started" ""
  obtain ⟨visits, bench⟩ := Visit.makeAll_likewise settled started.execution supply supply'
    planned.phase.name (ActorResult.goesOn planned.phase.errorPolicy) started.bench
  have ran : Alike ((course.record supply (some planned.phase.name) "phase_started" "").runActors
      supply planned).2 ((course'.record supply' (some planned.phase.name) "phase_started"
        "").runActors supply' planned).2 := ⟨started.execution, bench⟩
  exact ran.judged supply supply' isLastWanted planned.phase visits

theorem runPhase (h : course.Alike course') (supply supply' : Supply)
    (isLastWanted : Phase → Bool) {planned : PlannedPhase}
    (settled : ∀ actor ∈ planned.actors, actor.Settled) :
    Account.Alike EndsPhaseAlike (course.runPhase supply isLastWanted planned)
      (course'.runPhase supply' isLastWanted planned) := by
  have tried := h.tryPhase supply supply' isLastWanted settled
  have turns : ∀ {first second : List Visit}, List.Forall₂ Visit.Alike first second →
      List.Forall₂ RunStep.Alike (first.map .visit) (second.map .visit) := by
    intro first second alike
    induction alike with
    | nil => exact .nil
    | cons here _ ih => exact .cons (.visit here) ih
  unfold Course.runPhase
  refine (Account.Alike.does (turns tried.visits)).bind fun _ _ _ => ?_
  rw [← tried.verdict_eq]
  refine (Account.Alike.ends (tried.course.heed supply supply' _)).bind fun after after' later => ?_
  refine (Account.Alike.does (later.persisted ?_)).bind fun _ _ _ =>
    .pure ⟨tried.result_eq, rfl, later⟩
  cases (course.tryPhase supply isLastWanted planned).verdict.commits with
  | true => exact later.bench.bus.log.length_eq
  | false => exact h.bench.bus.log.length_eq

theorem runPhases {plan : List PlannedPhase} (h : course.Alike course') (supply supply' : Supply)
    (isLastWanted : Phase → Bool)
    (settled : ∀ planned ∈ plan, ∀ actor ∈ planned.actors, actor.Settled) :
    Account.Alike EndsAlike (Course.runPhases supply isLastWanted plan course)
      (Course.runPhases supply' isLastWanted plan course') := by
  induction plan generalizing course course' with
  | nil =>
      unfold Course.runPhases
      refine (Account.Alike.ends (h.change supply supply' .completed)).bind
        fun after after' later => ?_
      exact (Account.Alike.does (later.persisted later.bench.bus.log.length_eq)).bind fun _ _ _ =>
        .pure ⟨rfl, rfl, later⟩
  | cons planned rest ih =>
      obtain ⟨here, others⟩ := List.forall_mem_cons.mp settled
      unfold Course.runPhases
      refine (h.runPhase supply supply' isLastWanted here).bind ?_
      rintro ⟨result, verdict, after⟩ ⟨result', verdict', after'⟩ ⟨rfl, rfl, later⟩
      simp only
      cases verdict.outcome? planned.phase.name with
      | some outcome => exact .pure ⟨rfl, rfl, later⟩
      | none =>
          refine (ih later others).bind ?_
          rintro ⟨summaries, outcome, last⟩ ⟨summaries', outcome', last'⟩ ⟨rfl, rfl, final⟩
          exact .pure ⟨rfl, rfl, final⟩

/-! ## Whole runs -/

theorem begin (h : course.Alike course') (supply supply' : Supply) :
    Account.Alike Alike (course.begin supply) (course'.begin supply') := by
  unfold Course.begin
  refine (Account.Alike.ends (h.change supply supply' .running)).bind fun after after' later => ?_
  exact (Account.Alike.does (.cons (.save later.execution) .nil)).bind fun _ _ _ => .pure later

theorem resume (h : course.Alike course') (supply supply' : Supply) (hasPhases : Bool) :
    Account.Alike Alike (course.resume supply hasPhases) (course'.resume supply' hasPhases) := by
  obtain ⟨created, updated, same⟩ := Execution.exists_of_timeless h.execution
  have cleared : Alike { course with execution := course.execution.clearFailure }
      { course' with execution := course'.execution.clearFailure } := by
    refine ⟨?_, h.bench⟩
    rw [same]
    rfl
  have configured : course'.execution.configuration = course.execution.configuration := by
    rw [same]
  have restored : ∀ bindings : List (String × String), List.Forall₂ RunStep.Alike
      (setting bindings) (setting bindings) := by
    intro bindings
    induction bindings with
    | nil => exact .nil
    | cons binding _ ih => exact .cons (.setVariable _ _) ih
  unfold Course.resume
  rw [configured]
  refine (Account.Alike.does (restored _)).bind fun _ _ _ => ?_
  refine (Account.Alike.ends (cleared.change supply supply' .resumed)).bind
    fun after after' later => ?_
  refine (Account.Alike.does (.cons (.save later.execution) .nil)).bind fun _ _ _ => ?_
  cases hasPhases with
  | true => exact .ends (later.change supply supply' .running)
  | false => exact .ends (.ok later)

end Alike

end Course

structure Entry.Alike (first second : Entry) : Prop where
  execution : first.execution.timeless = second.execution.timeless
  start_eq : first.start = second.start
  journal : first.journal.Alike second.journal
  resumes_eq : first.resumes = second.resumes

theorem Course.account_alike {entry entry' : Entry} (h : entry.Alike entry')
    (supply supply' : Supply) {bench bench' : Workbench} (alike : bench.Alike bench')
    (isLastWanted : Phase → Bool) {plan : List PlannedPhase}
    (settled : ∀ planned ∈ plan, ∀ actor ∈ planned.actors, actor.Settled) :
    Account.Alike Eq (Course.account supply entry bench isLastWanted plan)
      (Course.account supply' entry' bench' isLastWanted plan) := by
  have start : Alike ⟨entry.execution, bench⟩ ⟨entry'.execution, bench'⟩ := ⟨h.execution, alike⟩
  have opened : Account.Alike Alike (opening supply entry bench (!plan.isEmpty))
      (opening supply' entry' bench' (!plan.isEmpty)) := by
    unfold opening
    rw [← h.resumes_eq]
    cases entry.resumes with
    | true => exact start.resume supply supply' _
    | false => exact start.begin supply supply'
  unfold account
  refine opened.bind fun course course' later => ?_
  refine (later.runPhases supply supply' isLastWanted settled).bind ?_
  rintro ⟨summaries, outcome, last⟩ ⟨summaries', outcome', last'⟩ ⟨rfl, rfl, final⟩
  obtain ⟨created, updated, same⟩ := Execution.exists_of_timeless final.execution
  have reports : last.bench.bus.reports = last'.bench.bus.reports := final.bench.bus.log.reports_eq
  refine .pure ?_
  simp only [RunResult.mk.injEq, reports, and_true]
  rw [same]
  exact ⟨rfl, rfl, rfl⟩

theorem Setting.account_alike (setting : Setting) {entry entry' : Entry} (h : entry.Alike entry')
    (settled : ∀ actor ∈ setting.registry.actors, actor.Settled) (supply supply' : Supply)
    (options : RunOptions) (answers : Answers) :
    Account.EndAlike (Account.Alike Eq) (setting.account supply options answers entry)
      (setting.account supply' options answers entry') := by
  obtain ⟨created, updated, same⟩ := Execution.exists_of_timeless h.execution
  have configured : entry'.execution.configuration = entry.execution.configuration := by rw [same]
  cases stopped : setting.workflow.stopPlace options.untilPhase with
  | error refusal =>
      simp only [Setting.account, stopped, Except.mapError, bind, Except.bind]
      exact .error _
  | ok stop =>
      cases planned : setting.plan (options.filtersFor entry.execution.configuration) entry.start
          stop with
      | error cycle =>
          simp only [Setting.account, configured, ← h.start_eq, stopped, planned, Except.mapError,
            bind, Except.bind]
          exact .error _
      | ok plan =>
          have again := planned
          rw [← configured, h.start_eq] at again
          rw [Setting.account_of_plan stopped planned, Setting.account_of_plan stopped again]
          have bench : (entry.bench setting.registry.catalog answers).Alike
              (entry'.bench setting.registry.catalog answers) :=
            ⟨⟨rfl, h.journal.messages⟩, rfl, h.journal.audit⟩
          exact .ok (Course.account_alike h supply supply' bench _ fun phase mem actor among =>
            settled actor (Setting.mem_of_plan planned phase mem actor among))

end PhasedUpgrade
