import PhasedUpgrade.Proofs.Run.Opening
import PhasedUpgrade.Proofs.Run.Plan
import PhasedUpgrade.Proofs.Run.Versions

/-!
# Ends of runs

The last thing that a run writes is the record that its result tells of, and only this record can
say that the execution is completed. It says so behind the last phase of the workflow, behind the
phase that was asked for as the last one, or at once, if there is no phase left to run.
-/

namespace PhasedUpgrade

open LawfulStore (holdings)

/-! ## How a run concludes -/

/-- The outcome and the last record of a run that may go from one place up to another. -/
inductive Concludes (workflow : Workflow) (start stop : Nat) : RunOutcome → Execution → Prop
  | completed {record : Execution} (state : record.state = .completed)
      (reached : workflow.placeAfter record = .ok (max start stop))
      (whole : start < stop → stop = workflow.phases.length) :
      Concludes workflow start stop .completed record
  | stopped {record : Execution} {phase : Phase} (state : record.state = .completed)
      (before : start < stop) (found : workflow.phases[stop - 1]? = some phase)
      (last : record.lastCompletedPhase = some phase.name) :
      Concludes workflow start stop (.stopped phase.name) record
  | unfinished {outcome : RunOutcome} {record : Execution} (state : record.state ≠ .completed)
      (other : outcome ≠ .completed) : Concludes workflow start stop outcome record

/-- What is concluded from the next place on is concluded from here, unless it is time to stop. -/
theorem Concludes.of_next {workflow : Workflow} {start stop : Nat} {outcome : RunOutcome}
    {record : Execution} (h : Concludes workflow (start + 1) stop outcome record)
    (before : start < stop) (goesOn : start + 1 = stop → stop = workflow.phases.length) :
    Concludes workflow start stop outcome record := by
  cases h with
  | completed state reached whole =>
      rw [Nat.max_eq_right (by omega)] at reached
      refine .completed state (by rwa [Nat.max_eq_right (by omega)]) fun _ => ?_
      rcases Nat.lt_or_eq_of_le (Nat.succ_le_of_lt before) with more | last
      · exact whole more
      · exact goesOn last
  | stopped state inside found last => exact .stopped state before found last
  | unfinished state other => exact .unfinished state other

namespace Verdict

theorem isLastWanted_of_stopped {phase : Phase} {result : PhaseResult} {bus : Bus}
    {isLastWanted : Bool} (h : ofResult phase result bus isLastWanted = stopped) :
    isLastWanted = true := by
  unfold ofResult at h
  split at h
  · cases h
  · split at h
    · cases h
    · split at h
      · assumption
      · split at h <;> cases h

theorem not_isLastWanted_of_onward {phase : Phase} {result : PhaseResult} {bus : Bus}
    {isLastWanted : Bool} (h : ofResult phase result bus isLastWanted = onward) :
    isLastWanted = false := by
  unfold ofResult at h
  split at h
  · cases h
  · split at h
    · cases h
    · split at h
      · cases h
      · simpa using ‹¬ isLastWanted = true›

theorem lastCompletedPhase_note (verdict : Verdict) (phase : String) (time : Time.Instant)
    (execution : Execution) :
    (verdict.note phase time execution).lastCompletedPhase =
      if verdict.commits then some phase else execution.lastCompletedPhase := by
  cases verdict <;> rfl

end Verdict

theorem Concludes.of_verdict {workflow : Workflow} {start stop : Nat} {outcome : RunOutcome}
    {record : Execution} {verdict : Verdict} {phase : Phase} {last : Option String}
    (before : start < stop) (found : workflow.phases[start]? = some phase)
    (ending : verdict.outcome? phase.name = some outcome)
    (state : record.state = verdict.state?.getD .running)
    (named : record.lastCompletedPhase = if verdict.commits then some phase.name else last)
    (wanted : verdict = .stopped → start + 1 = stop) :
    Concludes workflow start stop outcome record := by
  cases verdict with
  | stopped =>
      obtain rfl := Option.some.inj ending
      obtain rfl := wanted rfl
      exact .stopped state before found named
  | onward => cases ending
  | failed terminal retryable =>
      obtain rfl := Option.some.inj ending
      exact .unfinished (by simp [state, Verdict.state?]) nofun
  | inhibited count =>
      obtain rfl := Option.some.inj ending
      exact .unfinished (by simp [state, Verdict.state?]) nofun
  | reboot required =>
      obtain rfl := Option.some.inj ending
      exact .unfinished (by simp [state, Verdict.state?]) nofun

namespace Course

variable {setting : Setting} {filters : Filters} {place stop : Nat} {isLastWanted : Phase → Bool}
  {plan : List PlannedPhase} {course : Course}

theorem state_heeded (running : course.execution.state = .running) (supply : Supply)
    (verdict : Verdict) :
    (course.heeded supply verdict).execution.state = verdict.state?.getD .running := by
  unfold heeded
  cases verdict.state? with
  | none => exact running
  | some state => rfl

theorem lastCompletedPhase_heeded (supply : Supply) (verdict : Verdict) :
    (course.heeded supply verdict).execution.lastCompletedPhase =
      course.execution.lastCompletedPhase := by
  unfold heeded
  cases verdict.state? <;> rfl

theorem not_save_mem_visits (visits : List Visit) (record : Execution) :
    .save record ∉ visits.map RunStep.visit := by
  intro mem
  obtain ⟨turn, _, same⟩ := List.mem_map.mp mem
  cases same

theorem eq_of_save_mem_persisted {count : Nat} {record : Execution}
    (mem : .save record ∈ course.persisted count) : record = course.execution := by
  unfold persisted at mem
  simpa using mem

theorem runPhases_concludes (supply : Supply) (stops : setting.workflow.StopsAt stop isLastWanted)
    (inside : stop ≤ setting.workflow.phases.length)
    (planned : setting.plan filters place stop = .ok plan) (mayRun : course.MayRun plan)
    (reached : setting.workflow.placeAfter course.execution = .ok place) :
    ∃ earlier summaries outcome last count,
      runPhases supply isLastWanted plan course =
        ⟨earlier ++ last.persisted count, .ok (summaries, outcome, last)⟩ ∧
      (∀ record, .save record ∈ earlier → record.state ≠ .completed) ∧
      Concludes setting.workflow place stop outcome last.execution := by
  induction plan generalizing course place with
  | nil =>
      have behind : stop ≤ place := Setting.le_of_plan_nil planned inside
      refine ⟨[], [], .completed, course.changed supply .completed, _,
        runPhases_nil mayRun.completed_mem isLastWanted, fun _ none => absurd none List.not_mem_nil,
        .completed rfl ?_ (by omega)⟩
      rw [Nat.max_eq_left behind]
      exact reached
  | cons first rest ih =>
      have running := mayRun.running
      obtain ⟨before, found, _, later⟩ := Setting.plan_cons planned
      have tried := tryPhase_spec course supply isLastWanted first
      have judged : (course.tryPhase supply isLastWanted first).verdict =
          .ofResult first.phase (course.tryPhase supply isLastWanted first).result
            (course.tryPhase supply isLastWanted first).course.bench.bus
            (isLastWanted first.phase) := rfl
      generalize same : course.tryPhase supply isLastWanted first = trial at tried judged
      obtain ⟨time, noted⟩ := tried.execution_eq
      have still : trial.course.execution.state = .running := by rw [noted, state_note, running]
      have state := state_heeded still supply trial.verdict
      have named : (trial.course.heeded supply trial.verdict).execution.lastCompletedPhase =
          if trial.verdict.commits then some first.phase.name
          else course.execution.lastCompletedPhase := by
        rw [lastCompletedPhase_heeded, noted, Verdict.lastCompletedPhase_note]
      have goes := runPhases_cons_cases running same rest
      dsimp only at goes
      generalize trial.course.heeded supply trial.verdict = after at goes state named
      rcases goes with ⟨outcome, ending, ran⟩ | ⟨onward, goesOn, ran⟩
      · refine ⟨trial.visits.map .visit, _, outcome, _, _, ran,
          fun record mem => absurd mem (not_save_mem_visits _ record),
          .of_verdict before found ending state named fun stopped => ?_⟩
        have wanted := Verdict.isLastWanted_of_stopped (judged.symm.trans stopped)
        exact ((stops place first.phase found).mp wanted).1
      · rw [onward] at named
        have unwanted := Verdict.not_isLastWanted_of_onward (judged.symm.trans onward)
        obtain ⟨earlier, summaries, outcome, last, count, others, open_, concludes⟩ :=
          ih later (.inl goesOn) (Workflow.placeAfter_of_named found named)
        refine ⟨trial.visits.map .visit ++ after.persisted (course.keptBy trial after) ++ earlier,
          trial.result.summary :: summaries, outcome, last, count, ?_, ?_,
          concludes.of_next before fun here => ?_⟩
        · rw [ran, others, ← List.append_assoc]
          rfl
        · intro record mem
          rcases List.mem_append.mp mem with mem | mem
          · rcases List.mem_append.mp mem with mem | mem
            · exact absurd mem (not_save_mem_visits _ record)
            · rw [eq_of_save_mem_persisted mem, goesOn]
              exact nofun
          · exact open_ record mem
        · by_contra short
          have wanted := (stops place first.phase found).mpr ⟨here, by omega⟩
          rw [unwanted] at wanted
          cases wanted

variable {supply : Supply} {entry : Entry} {bench : Workbench}

/-- A run whose opening is refused only sets variables; any other ends as its last record says. -/
theorem account_concludes (supply : Supply) (logged : bench.bus.log = entry.journal.messages)
    (stops : setting.workflow.StopsAt stop isLastWanted)
    (inside : stop ≤ setting.workflow.phases.length)
    (planned : setting.plan filters entry.start stop = .ok plan)
    (reached : setting.workflow.placeAfter entry.execution = .ok entry.start) :
    (∃ bindings error, account supply entry bench isLastWanted plan =
      ⟨Course.setting bindings, .error error⟩) ∨
    ∃ earlier last result, account supply entry bench isLastWanted plan =
        ⟨earlier ++ [.save last], .ok result⟩ ∧
      result.executionId = last.id ∧
      (∀ record, .save record ∈ earlier → record.state ≠ .completed) ∧
      Concludes setting.workflow entry.start stop result.outcome last := by
  rcases opening_cases logged with
    ⟨bindings, written, course, opened, opens, continues, state⟩ | ⟨bindings, _, opened⟩
  · have mayRun : course.MayRun plan := mayRun_of_opened state
    have kept : course.execution.lastCompletedPhase = entry.execution.lastCompletedPhase := by
      obtain ⟨time, same⟩ := continues.execution_eq
      rw [same]
      cases opens <;> rfl
    obtain ⟨earlier, summaries, outcome, last, count, ran, others, concludes⟩ :=
      runPhases_concludes supply stops inside planned mayRun
        ((Workflow.placeAfter_congr kept).trans reached)
    refine .inr ⟨Course.setting bindings ++ [.save written] ++ earlier ++
      [.saveJournal last.execution.id ⟨last.bench.bus.log.take count, last.bench.trail⟩],
      last.execution, ⟨last.execution.id, last.execution.kind, last.execution.state, outcome,
        summaries, last.bench.bus.reports⟩, ?_, rfl, ?_, concludes⟩
    · rw [account_eq opened, ran]
      simp [persisted, Except.map]
    · intro record mem
      simp only [List.mem_append, List.mem_singleton, reduceCtorEq, or_false] at mem
      rcases mem with (bound | ⟨⟨⟩⟩) | mem
      · simp [Course.setting] at bound
      · rcases opens.active with state | state <;> simp [state]
      · exact others record mem
  · exact .inl ⟨bindings, _, account_eq_error opened isLastWanted⟩

end Course

/-! ## What the last record says -/

namespace Workflow

variable {workflow : Workflow} {execution : Execution} {place : Nat}

theorem phase_of_placeAfter (h : workflow.placeAfter execution = .ok (place + 1)) :
    ∃ phase, workflow.phases[place]? = some phase ∧
      execution.lastCompletedPhase = some phase.name := by
  unfold placeAfter at h
  cases named : execution.lastCompletedPhase with
  | none =>
      rw [named] at h
      cases h
  | some name =>
      rw [named] at h
      simp only at h
      cases placed : workflow.position? name with
      | none =>
          rw [placed] at h
          cases h
      | some other =>
          rw [placed] at h
          obtain rfl : other = place := Nat.succ.inj (Except.ok.inj h)
          obtain ⟨phase, found, rfl⟩ := phase_of_position? placed
          exact ⟨phase, found, rfl⟩

theorem placeAfter_le (h : workflow.placeAfter execution = .ok place) :
    place ≤ workflow.phases.length := by
  cases place with
  | zero => exact Nat.zero_le _
  | succ place =>
      obtain ⟨phase, found, _⟩ := phase_of_placeAfter h
      exact (List.getElem?_eq_some_iff.mp found).1

theorem lastCompletedPhase_eq_iff (h : workflow.placeAfter execution = .ok place) :
    execution.lastCompletedPhase = workflow.phases.getLast?.map Phase.name ↔
      place = workflow.phases.length := by
  have inhabited := List.length_pos_of_ne_nil workflow.phases_ne_nil
  rw [List.getLast?_eq_getElem?]
  constructor
  · intro last
    have found := List.getElem?_eq_getElem (show workflow.phases.length - 1 <
      workflow.phases.length by omega)
    rw [found] at last
    have behind := placeAfter_of_named found last
    rw [h, Nat.sub_add_cancel inhabited] at behind
    exact Except.ok.inj behind
  · rintro rfl
    rw [← Nat.sub_add_cancel inhabited] at h
    obtain ⟨phase, found, named⟩ := phase_of_placeAfter h
    rw [found, named]
    rfl

theorem position?_of_stopPlace {name : String} {stop : Nat}
    (h : workflow.stopPlace (some name) = .ok stop) :
    0 < stop ∧ workflow.position? name = some (stop - 1) := by
  simp only [stopPlace] at h
  cases placed : workflow.position? name with
  | none =>
      rw [placed] at h
      cases h
  | some last =>
      rw [placed] at h
      obtain rfl := Except.ok.inj h
      exact ⟨Nat.zero_lt_succ last, by simp⟩

end Workflow

namespace Concludes

variable {workflow : Workflow} {start stop : Nat} {outcome : RunOutcome} {record : Execution}

theorem last_iff (h : Concludes workflow start stop .completed record)
    (inside : stop ≤ workflow.phases.length) :
    record.state = .completed ∧
      (record.lastCompletedPhase = workflow.phases.getLast?.map Phase.name ↔
      ¬ (stop ≤ start ∧ start < workflow.phases.length)) := by
  cases h with
  | completed state reached whole =>
      have known := Workflow.placeAfter_le reached
      refine ⟨state, (Workflow.lastCompletedPhase_eq_iff reached).trans ?_⟩
      rcases Nat.lt_or_ge start stop with before | behind
      · have all := whole before
        omega
      · omega
  | unfinished _ other => exact absurd rfl other

/--
What a run has been completed by: its last phase, or the one that it was asked to stop behind.
-/
theorem of_state (h : Concludes workflow start stop outcome record)
    (state : record.state = .completed) {untilPhase : Option String}
    (stopped : workflow.stopPlace untilPhase = .ok stop)
    (goesOn : ¬ (stop ≤ start ∧ start < workflow.phases.length)) :
    record.lastCompletedPhase = workflow.phases.getLast?.map Phase.name ∨
      ∃ name place, untilPhase = some name ∧ outcome = .stopped name ∧
        record.lastCompletedPhase = some name ∧ workflow.position? name = some place ∧
        start ≤ place := by
  have inside := (Workflow.stopPlace_spec stopped).1
  cases h with
  | completed state reached whole =>
      exact .inl (((Concludes.completed state reached whole).last_iff inside).2.mpr goesOn)
  | @stopped _ phase _ before found last =>
      cases untilPhase with
      | none =>
          obtain rfl : workflow.phases.length = stop := Except.ok.inj stopped
          rw [last, List.getLast?_eq_getElem?, found]
          exact .inl rfl
      | some name =>
          obtain ⟨_, placed⟩ := Workflow.position?_of_stopPlace stopped
          obtain ⟨other, there, named⟩ := Workflow.phase_of_position? placed
          obtain rfl : phase = other := Option.some.inj (found.symm.trans there)
          subst named
          exact .inr ⟨_, stop - 1, rfl, rfl, last, placed, by omega⟩
  | unfinished other _ => exact absurd state other

end Concludes

/-! ## Whole calls -/

section

variable {σ : Type} [LawfulStore σ] {call : Call} {account : Account RunResult}
  {log : List RunStep} {store : σ}

/-- A call that ends well has taken all its steps, and one that has does not end otherwise. -/
theorem Call.carryOut_whole (call : Call) (account : Account RunResult) (store : σ) :
    (∀ result, (call.carryOut account store).1.result = some (.ok result) →
      account.ended = .ok result ∧ (call.carryOut account store).1.steps = account.steps) ∧
    ((call.carryOut account store).1.steps = account.steps →
      ∀ ended, (call.carryOut account store).1.result = some ended → ended = account.ended) := by
  rcases call.carryOut_cases account store with
    ⟨_, result, whole⟩ | ⟨_, result⟩ | ⟨cause, result, partly⟩ <;> rw [result]
  · exact ⟨fun value same => ⟨Option.some.inj same, whole⟩,
      fun _ ended same => (Option.some.inj same).symm⟩
  · exact ⟨nofun, fun _ => nofun⟩
  · exact ⟨nofun, fun whole => absurd whole partly⟩

/-- How a call ended, if it ended well. -/
def Episode.outcome? (episode : Episode) : Option RunOutcome :=
  match episode.result with
  | some (.ok result) => some result.outcome
  | _ => none

theorem Episode.outcome?_eq_some_iff {episode : Episode} {outcome : RunOutcome} :
    episode.outcome? = some outcome ↔
      ∃ result, episode.result = some (.ok result) ∧ result.outcome = outcome := by
  unfold outcome?
  rcases episode.result with _ | _ | result <;> simp

/--
Whether a call takes up an execution that is past the phase it is asked to stop behind, but has not
been through the last one.
-/
def Call.Overtaken (call : Call) (workflow : Workflow) (store : σ) : Prop :=
  ∃ entry stop, ((call.setting workflow).entry call.supply call.request store).1 = .ok entry ∧
    workflow.stopPlace call.options.untilPhase = .ok stop ∧ stop ≤ entry.start ∧
    entry.start < workflow.phases.length

variable {workflow : Workflow} {episodes : List Episode} {after : σ} {entry : Entry}

theorem Enters.placeAfter_eq (enters : Enters workflow log entry)
    (sound : (Chronicle.ofSteps entry.execution.id log).Sound workflow) :
    workflow.placeAfter entry.execution = .ok entry.start := by
  cases enters with
  | fresh _ _ _ _ => rfl
  | resumed stored placed => exact (Workflow.resumePlace_spec placed).2.1

theorem Setting.account_concludes {setting : Setting} {supply : Supply} {options : RunOptions}
    {answers : Answers}
    (planned : setting.account supply options answers entry = .ok account)
    (reached : setting.workflow.placeAfter entry.execution = .ok entry.start) :
    ∃ stop, setting.workflow.stopPlace options.untilPhase = .ok stop ∧
      ((∃ bindings error, account = ⟨Course.setting bindings, .error error⟩) ∨
      ∃ earlier last result, account = ⟨earlier ++ [.save last], .ok result⟩ ∧
        result.executionId = last.id ∧
        (∀ record, .save record ∈ earlier → record.state ≠ .completed) ∧
        Concludes setting.workflow entry.start stop result.outcome last) := by
  obtain ⟨stop, plan, stopped, phases, rfl⟩ := Setting.exists_plan planned
  obtain ⟨inside, stops⟩ := Workflow.stopPlace_spec stopped
  exact ⟨stop, stopped, Course.account_concludes supply rfl stops inside phases reached⟩

/-- An execution is put among the completed ones by the last step of its run only. -/
theorem Call.completing_whole {call : Call} {earlier : List RunStep} {last record : Execution}
    {ended : Except RunError RunResult}
    (same : account = ⟨earlier ++ [.save last], ended⟩)
    (others : ∀ record, .save record ∈ earlier → record.state ≠ .completed)
    (mem : .save record ∈ (call.carryOut account store).1.steps)
    (state : record.state = .completed) :
    record = last ∧
      ∀ result, (call.carryOut account store).1.result = some result → result = ended := by
  have made := call.carryOut_prefix account store
  have whole := (call.carryOut_whole account store).2
  generalize call.carryOut account store = outcome at made whole mem
  rw [same, List.prefix_concat_iff] at made
  rcases made with all | short
  · rw [same] at whole
    rw [all] at mem
    rcases List.mem_append.mp mem with old | new
    · exact absurd state (others record old)
    · cases List.mem_singleton.mp new
      exact ⟨rfl, whole all⟩
  · exact absurd state (others record (short.subset mem))

/--
A call that is let in and planned ends as the place of its entry and the place to stop at say.
-/
theorem Call.concludes_of_planned (call : Call)
    (enters : Enters workflow log entry)
    (sound : (Chronicle.ofSteps entry.execution.id log).Sound workflow)
    (entered : (call.setting workflow).entry call.supply call.request store = (.ok entry, after))
    (planned : (call.setting workflow).account call.supply call.options call.answers entry =
      .ok account) :
    ∃ stop, workflow.stopPlace call.options.untilPhase = .ok stop ∧
      (call.Overtaken workflow store ↔
        stop ≤ entry.start ∧ entry.start < workflow.phases.length) ∧
      ((∃ bindings error, account = ⟨Course.setting bindings, .error error⟩) ∨
      ∃ earlier last result, account = ⟨earlier ++ [.save last], .ok result⟩ ∧
        result.executionId = last.id ∧
        (∀ record, .save record ∈ earlier → record.state ≠ .completed) ∧
        Concludes workflow entry.start stop result.outcome last) := by
  obtain ⟨stop, stopped, comes⟩ :=
    Setting.account_concludes planned (enters.placeAfter_eq sound)
  refine ⟨stop, stopped, ⟨?_, fun overtaken => ⟨entry, stop, ?_, stopped, overtaken⟩⟩, comes⟩
  · rintro ⟨other, there, same, found, overtaken⟩
    rw [entered] at same
    obtain rfl := Except.ok.inj same
    obtain rfl := Except.ok.inj (stopped.symm.trans found)
    exact overtaken
  · rw [entered]

theorem Enters.ne_of_behind {runs : List (List RunStep)} (earlier : Runs workflow runs)
    (enters : Enters workflow runs.flatten entry) {name : String} {place : Nat}
    (found : workflow.position? name = some place) (behind : entry.start ≤ place)
    {version : Execution} (written : .save version ∈ runs.flatten)
    (mine : version.id = entry.execution.id) : version.lastCompletedPhase ≠ some name := by
  intro again
  obtain ⟨count, counted, bound⟩ :=
    (earlier.inOrder entry.execution.id).bounded version (RunStep.mem_versions written mine)
  obtain ⟨phase, there, rfl⟩ := Workflow.phase_of_position? found
  rw [Workflow.placeAfter_of_named there again] at counted
  obtain rfl := Except.ok.inj counted
  have entered := (enters.behind (earlier.sound entry.execution.id)).1
  omega

/--
After any history a call that ends with everything done leaves a record that names the last phase,
unless it found its execution past the phase it was asked to stop behind. But for such calls an
execution is completed only by its last phase, or by the phase that the call was asked to stop
behind and has stopped behind, which no record of the execution has named before.
-/
theorem History.completed_iff_not_overtaken (history : History workflow episodes store)
    (new : call.NamesNew store) :
    (∀ result, (call.make workflow store).1.result = some (.ok result) →
      result.outcome = .completed →
      ∃ record, (holdings (call.make workflow store).2).execution? result.executionId =
          some record ∧ record.state = .completed ∧
        (record.lastCompletedPhase = workflow.phases.getLast?.map Phase.name ↔
          ¬ call.Overtaken workflow store)) ∧
    ∀ record, .save record ∈ (call.make workflow store).1.steps → record.state = .completed →
      ¬ call.Overtaken workflow store →
      record.lastCompletedPhase = workflow.phases.getLast?.map Phase.name ∨
      ∃ name, call.options.untilPhase = some name ∧ record.lastCompletedPhase = some name ∧
        (∀ version, .save version ∈ Episode.allSteps episodes → version.id = record.id →
          version.lastCompletedPhase ≠ some name) ∧
        ∀ ended, (call.make workflow store).1.result = some ended →
          ∃ result, ended = .ok result ∧ result.outcome = .stopped name := by
  rcases call.make_eq workflow store with
    ⟨error, refused, _⟩ | ⟨entry, account, after, entered, planned, made⟩
  · rw [refused]
    exact ⟨nofun, fun _ none => absurd none List.not_mem_nil⟩
  obtain ⟨held, enters⟩ := Setting.entry_spec workflow history.holdings_eq new
  rw [entered] at held enters
  have enters := enters entry rfl
  have sound := history.runs.sound entry.execution.id
  obtain ⟨stop, stopped, goesOn, comes⟩ := call.concludes_of_planned enters sound entered planned
  obtain ⟨first, holds⟩ := call.carryOut_spec account held
  have whole := (call.carryOut_whole account after).1
  rw [made, goesOn]
  rcases comes with
    ⟨bindings, error, rfl⟩ | ⟨earlier, last, result, rfl, named, others, concludes⟩
  · refine ⟨fun result ended => (nomatch (whole result ended).1), fun record mem => ?_⟩
    have bound := first.subset mem
    simp [Course.setting] at bound
  · refine ⟨fun value ended completed => ?_, fun record mem state wanted => ?_⟩
    · obtain ⟨right, all⟩ := whole value ended
      obtain rfl := Except.ok.inj right
      rw [completed] at concludes
      refine ⟨last, ?_, concludes.last_iff (Workflow.stopPlace_spec stopped).1⟩
      rw [holds, all, named]
      show (Chronicle.ofSteps last.id _).execution? = _
      rw [Chronicle.ofSteps_append_concat, Chronicle.note_save rfl]
      rfl
    · obtain ⟨rfl, comes⟩ := Call.completing_whole rfl others mem state
      refine (concludes.of_state state stopped wanted).imp_right ?_
      rintro ⟨name, place, asked, outcome, names, found, behind⟩
      refine ⟨name, asked, names, fun version written mine => ?_,
        fun ended given => ⟨result, comes ended given, outcome⟩⟩
      obtain ⟨standing, progress⟩ := Setting.account_progress planned first
      exact enters.ne_of_behind history.runs found behind written
        (mine.trans (progress.own _ mem record.id rfl))

/-- A run that waited for its reboot and is taken up behind it ends with its last phase. -/
theorem History.completed_behind_reboot :
    let idle : View → Task Unit := fun _ => pure ()
    let first := (Call.probing idle (.fresh .upgrade default) none).make .rebooting
      MemoryStore.empty
    let second := (Call.probing idle (.resume .upgrade none) none).make .rebooting first.2
    second.1.outcome? = some .completed ∧
      ∃ id record, (holdings second.2).execution? id = some record ∧
        record.lastCompletedPhase = some "apply" := by
  intro idle first second
  have outcome : second.1.outcome? = some .completed := by decide +revert
  have begun : History .rebooting [first.1] first.2 :=
    (History.empty rfl).call _ (Call.namesNew_empty _)
  clear_value first
  obtain ⟨result, ended, completed⟩ := Episode.outcome?_eq_some_iff.mp outcome
  obtain ⟨record, stored, _, last⟩ :=
    (begun.completed_iff_not_overtaken (Call.namesNew_of_resume rfl first.2)).1 result ended
      completed
  refine ⟨outcome, result.executionId, record, stored, last.mpr ?_⟩
  rintro ⟨entry, stop, _, stopped, behind, before⟩
  have whole : 2 = stop := Except.ok.inj stopped
  exact absurd (behind.trans_lt before) (by rw [← whole]; decide)

/--
A run that waited for its reboot and is then asked to stop behind the phase that is done runs
nothing, but leaves the execution completed without its last phase.
-/
theorem History.completed_without_last_phase :
    let idle : View → Task Unit := fun _ => pure ()
    let first := (Call.probing idle (.fresh .upgrade default) none).make .rebooting
      MemoryStore.empty
    let again := { Call.probing idle (.resume .upgrade none) none with
      options := { RunOptions.none with untilPhase := some "prepare" } }
    let second := again.make .rebooting first.2
    let stored := (holdings second.2).execution? default
    History .rebooting [first.1, second.1] second.2 ∧ second.1.outcome? = some .completed ∧
      stored.map Execution.state = some .completed ∧
      stored.bind Execution.lastCompletedPhase = some "prepare" := by
  intro idle first again second stored
  have outcome : second.1.outcome? = some .completed := by decide +revert
  have state : stored.map Execution.state = some .completed := by decide +revert
  have last : stored.bind Execution.lastCompletedPhase = some "prepare" := by decide +revert
  have begun : History .rebooting [first.1] first.2 :=
    (History.empty rfl).call _ (Call.namesNew_empty _)
  exact ⟨begun.call again (Call.namesNew_of_resume rfl first.2), outcome, state, last⟩

end

end PhasedUpgrade
