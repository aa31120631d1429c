import PhasedUpgrade.Proofs.Run.Final

/-!
# What an outcome promises

The outcome of a run is made up when the run ends, and whether the execution may be taken up again
is decided later, from its record alone. The two agree: the last record of a run says what its
outcome tells, so a run that may go on by its outcome is let in again, is planned, and begins where
the outcome says.
-/

namespace PhasedUpgrade

open LawfulStore (holdings)

namespace RunOutcome

/-- Whether an execution of the workflow may be taken up again, as the outcome of its run tells. -/
def MayGoOn (workflow : Workflow) : RunOutcome → Prop
  | completed | stopped _ => False
  | awaitingReboot _ _ => True
  | failed _ retryable => retryable = true
  | inhibited name _ =>
      ∀ phase ∈ workflow.phases, phase.name = name → phase.retryPolicy ≠ .disabled

/-- The phase that a run goes on with, if there is one: the same again, or the one behind it. -/
def next? (workflow : Workflow) : RunOutcome → Option String
  | completed | stopped _ => none
  | awaitingReboot name _ =>
      (workflow.position? name).bind fun place => workflow.phases[place + 1]?.map Phase.name
  | failed name _ | inhibited name _ => some name

/--
The outcome of a run that may go from one place up to another, and the gist of its last record. What
has failed comes next; a reboot comes before the phase behind, if it is not behind all of them.
-/
inductive Tells (workflow : Workflow) (start stop : Nat) : RunOutcome → Gist → Prop
  | completed {gist : Gist} (state : gist.state = .completed) :
      Tells workflow start stop .completed gist
  | stopped {gist : Gist} (name : String) (state : gist.state = .completed) :
      Tells workflow start stop (.stopped name) gist
  | failed {place : Nat} {phase : Phase} {fatal retryable : Bool} (behind : start ≤ place)
      (before : place < stop) (found : workflow.phases[place]? = some phase)
      (retried : retryable = true ↔ fatal = false ∧ phase.retryPolicy ≠ .disabled) :
      Tells workflow start stop (.failed phase.name retryable)
        ⟨.failed, workflow.nameBefore place, some phase.name, true, fatal⟩
  | inhibited {place : Nat} {phase : Phase} (behind : start ≤ place) (before : place < stop)
      (found : workflow.phases[place]? = some phase) (count : Nat) :
      Tells workflow start stop (.inhibited phase.name count)
        ⟨.failed, workflow.nameBefore place, some phase.name, true, false⟩
  | reboot {place : Nat} {phase : Phase} (behind : start ≤ place) (before : place < stop)
      (found : workflow.phases[place]? = some phase) (required : Bool)
      (lastOfAll : place + 1 = stop → stop = workflow.phases.length) :
      Tells workflow start stop (.awaitingReboot phase.name required)
        ⟨.awaitingReboot, some phase.name, none, false, false⟩

variable {workflow : Workflow} {start stop : Nat} {outcome : RunOutcome} {gist : Gist}

theorem Tells.of_next (h : Tells workflow (start + 1) stop outcome gist) :
    Tells workflow start stop outcome gist := by
  cases h with
  | completed state => exact .completed state
  | stopped name state => exact .stopped name state
  | failed behind before found retried =>
      exact .failed (Nat.le_of_succ_le behind) before found retried
  | inhibited behind before found count =>
      exact .inhibited (Nat.le_of_succ_le behind) before found count
  | reboot behind before found required lastOfAll =>
      exact .reboot (Nat.le_of_succ_le behind) before found required lastOfAll

end RunOutcome

open RunOutcome (Tells)

namespace Verdict

variable {phase : Phase} {result : PhaseResult} {bus : Bus} {isLastWanted : Bool}

theorem retryable_iff_of_failed {terminal retryable : Bool}
    (h : ofResult phase result bus isLastWanted = failed terminal retryable) :
    retryable = true ↔ terminal = false ∧ phase.retryPolicy ≠ .disabled := by
  unfold ofResult at h
  split at h
  · cases h
    cases phase.retryPolicy <;> simp
  · split at h
    · cases h
    · split at h
      · cases h
      · split at h <;> cases h

theorem not_isLastWanted_of_reboot {required : Bool}
    (h : ofResult phase result bus isLastWanted = reboot required) : isLastWanted = false := by
  unfold ofResult at h
  split at h
  · cases h
  · split at h
    · cases h
    · split at h
      · cases h
      · simpa using ‹¬ isLastWanted = true›

end Verdict

/-! ## Runs -/

/-- The outcome that ends a run with a phase tells of the record that goes with the verdict. -/
theorem RunOutcome.Tells.of_verdict {workflow : Workflow} {start stop : Nat}
    {isLastWanted : Phase → Bool} {phase : Phase} {result : PhaseResult} {bus : Bus}
    {outcome : RunOutcome} (stops : workflow.StopsAt stop isLastWanted)
    (inside : stop ≤ workflow.phases.length) (before : start < stop)
    (found : workflow.phases[start]? = some phase)
    (ending : (Verdict.ofResult phase result bus (isLastWanted phase)).outcome? phase.name =
      some outcome) :
    Tells workflow start stop outcome
      ((Verdict.ofResult phase result bus (isLastWanted phase)).gist phase.name
        (workflow.nameBefore start)) := by
  cases judged : Verdict.ofResult phase result bus (isLastWanted phase) <;>
    rw [judged] at ending
  case onward => cases ending
  all_goals obtain rfl := Option.some.inj ending
  case failed terminal retryable =>
    exact .failed (Nat.le_refl _) before found (Verdict.retryable_iff_of_failed judged)
  case inhibited count => exact .inhibited (Nat.le_refl _) before found count
  case stopped => exact .stopped phase.name rfl
  case reboot required =>
    refine .reboot (Nat.le_refl _) before found required fun here => ?_
    -- The last phase that is asked for would stop the run, if there were any behind it.
    by_contra short
    have wanted := (stops start phase found).mpr ⟨here, by omega⟩
    rw [Verdict.not_isLastWanted_of_reboot judged] at wanted
    cases wanted

namespace Course

variable {setting : Setting} {filters : Filters} {place stop : Nat} {isLastWanted : Phase → Bool}
  {plan : List PlannedPhase} {course : Course}

/-- A run through its phases ends with a record that its outcome tells of. -/
theorem runPhases_tells (supply : Supply) (stops : setting.workflow.StopsAt stop isLastWanted)
    (inside : stop ≤ setting.workflow.phases.length)
    (planned : setting.plan filters place stop = .ok plan) (mayRun : course.MayRun plan)
    (clean : course.execution.gist = ⟨course.execution.state,
      setting.workflow.nameBefore place, none, false, false⟩) :
    ∃ earlier summaries outcome last count,
      runPhases supply isLastWanted plan course =
        ⟨earlier ++ last.persisted count, .ok (summaries, outcome, last)⟩ ∧
      last.execution.configuration = course.execution.configuration ∧
      Tells setting.workflow place stop outcome last.execution.gist := by
  -- On the way the gist names the phase before the place and no failure; a verdict adds to that.
  induction plan generalizing course place with
  | nil =>
      exact ⟨[], [], .completed, course.changed supply .completed, _,
        runPhases_nil mayRun.completed_mem isLastWanted, rfl, .completed rfl⟩
  | cons first rest ih =>
      have running := mayRun.running
      obtain ⟨before, found, _, later⟩ := Setting.plan_cons planned
      obtain ⟨time, noted⟩ := (tryPhase_spec course supply isLastWanted first).execution_eq
      have judged : (course.tryPhase supply isLastWanted first).verdict =
          .ofResult first.phase (course.tryPhase supply isLastWanted first).result
            (course.tryPhase supply isLastWanted first).course.bench.bus
            (isLastWanted first.phase) := rfl
      generalize same : course.tryPhase supply isLastWanted first = trial at noted judged
      rw [running] at clean
      have gist := Verdict.gist_heeded clean noted supply
      have kept : (trial.course.heeded supply trial.verdict).execution.configuration =
          course.execution.configuration := by
        rw [configuration_heeded, noted]
        cases trial.verdict <;> rfl
      have goes := runPhases_cons_cases running same rest
      dsimp only at goes
      generalize trial.course.heeded supply trial.verdict = after at goes gist kept
      rcases goes with ⟨outcome, ending, ran⟩ | ⟨onward, goesOn, ran⟩
      · rw [judged] at ending gist
        exact ⟨_, _, outcome, after, _, ran, kept,
          gist ▸ .of_verdict stops inside before found ending⟩
      · rw [onward] at gist
        have clean : after.execution.gist = ⟨after.execution.state,
            setting.workflow.nameBefore (place + 1), none, false, false⟩ := by
          rw [gist, goesOn, Workflow.nameBefore_succ found]
          rfl
        obtain ⟨earlier, summaries, outcome, last, count, others, same, tells⟩ :=
          ih later (.inl goesOn) clean
        refine ⟨trial.visits.map .visit ++ after.persisted (course.keptBy trial after) ++ earlier,
          trial.result.summary :: summaries, outcome, last, count, ?_, same.trans kept,
          tells.of_next⟩
        rw [ran, others, ← List.append_assoc]
        rfl

end Course

/-! ## Where a run begins -/

/-- The steps of a run up to its first journal: those before and in its first phase. -/
def RunStep.untilJournal (steps : List RunStep) : List RunStep :=
  steps.takeWhile fun
    | .saveJournal _ _ => false
    | _ => true

theorem RunStep.untilJournal_append {first rest : List RunStep}
    (plain : ∀ id journal, .saveJournal id journal ∉ first) :
    untilJournal (first ++ rest) = first ++ untilJournal rest := by
  refine List.takeWhile_append_of_pos fun step mem => ?_
  cases step with
  | saveJournal id journal => exact absurd mem (plain id journal)
  | setVariable _ _ | visit _ | save _ => rfl

namespace Course

theorem runPhases_head (mayRun : course.MayRun plan) (supply : Supply)
    (isLastWanted : Phase → Bool) :
    let run := runPhases supply isLastWanted plan course
    (∀ turn, .visit turn ∈ RunStep.untilJournal run.steps →
      (plan.head?.map fun planned => planned.phase.name) = some turn.phase) ∧
    ∀ value, run.ended = .ok value →
      value.1.head?.map PhaseSummary.phase = plan.head?.map fun planned => planned.phase.name := by
  cases plan with
  | nil =>
      rw [runPhases_nil mayRun.completed_mem]
      refine ⟨fun turn mem => ?_, ?_⟩
      · cases mem
      · rintro _ ⟨⟩
        rfl
  | cons first rest =>
      have visits := (tryPhase_spec course supply isLastWanted first).visits
      have named : (course.tryPhase supply isLastWanted first).result.summary.phase =
          first.phase.name := rfl
      generalize same : course.tryPhase supply isLastWanted first = trial at visits named
      have made (after : Course) (count : Nat) (later : List RunStep) (turn : Visit)
          (mem : .visit turn ∈ RunStep.untilJournal
            (trial.visits.map .visit ++ after.persisted count ++ later)) :
          some first.phase.name = some turn.phase := by
        rw [List.append_assoc, RunStep.untilJournal_append (by simp)] at mem
        have mem : RunStep.visit turn ∈ trial.visits.map RunStep.visit := by
          simpa [persisted, RunStep.untilJournal] using mem
        obtain ⟨other, among, same⟩ := List.mem_map.mp mem
        obtain rfl := RunStep.visit.inj same
        rw [(visits other among).phase_eq]
      rcases runPhases_cons_cases mayRun.running same rest with
        ⟨outcome, _, ran⟩ | ⟨_, _, ran⟩
      · rw [ran]
        refine ⟨fun turn mem => made _ _ [] turn (by rwa [List.append_nil]), ?_⟩
        rintro _ ⟨⟩
        exact congrArg some named
      · rw [ran]
        refine ⟨fun turn => made _ _ _ turn, fun value ended => ?_⟩
        obtain ⟨⟨summaries, outcome, last⟩, _, rfl⟩ := Except.exists_of_map_eq_ok ended
        exact congrArg some named

variable {entry : Entry} {bench : Workbench}

theorem account_head (supply : Supply) (logged : bench.bus.log = entry.journal.messages)
    (isLastWanted : Phase → Bool) {value : RunResult} :
    let run := account supply entry bench isLastWanted plan
    run.ended = .ok value →
    value.phases.head?.map PhaseSummary.phase = (plan.head?.map fun planned => planned.phase.name) ∧
    ∀ turn, .visit turn ∈ RunStep.untilJournal run.steps →
      (plan.head?.map fun planned => planned.phase.name) = some turn.phase := by
  intro run ended
  have same : run = account supply entry bench isLastWanted plan := rfl
  rcases opening_cases logged with
    ⟨bindings, written, course, opened, _, _, state⟩ | ⟨bindings, _, opened⟩
  · obtain ⟨visits, head⟩ :=
      runPhases_head (mayRun_of_opened state) supply isLastWanted
    rw [account_eq opened] at same
    rw [same] at ended ⊢
    obtain ⟨⟨summaries, outcome, last⟩, ran, rfl⟩ := Except.exists_of_map_eq_ok ended
    refine ⟨head _ ran, fun turn mem => visits turn ?_⟩
    rw [RunStep.untilJournal_append (by simp [setting])] at mem
    simpa [setting] using mem
  · rw [account_eq_error opened] at same
    rw [same] at ended
    cases ended

end Course

namespace Setting

variable {setting : Setting} {supply : Supply} {options : RunOptions} {answers : Answers}
  {entry : Entry} {account : Account RunResult} {log : List RunStep}

theorem plan_of_later {filters : Filters} {start place stop : Nat} {plan : List PlannedPhase}
    (h : setting.plan filters start stop = .ok plan) (behind : start ≤ place) :
    ∃ rest, setting.plan filters place stop = .ok rest := by
  have each := Except.exists_mapM_eq_ok_iff.mp ⟨plan, h⟩
  refine Except.exists_mapM_eq_ok_iff.mpr fun phase mem => each phase ?_
  obtain ⟨more, rfl⟩ := Nat.exists_eq_add_of_le behind
  rw [← List.drop_drop] at mem
  exact List.mem_of_mem_drop mem

theorem head?_of_plan {filters : Filters} {place stop : Nat} {plan : List PlannedPhase}
    (h : setting.plan filters place stop = .ok plan) :
    (plan.head?.map fun planned => planned.phase.name) =
      (setting.workflow.phases.take stop)[place]?.map Phase.name := by
  rw [← List.head?_drop, ← map_phase_plan h, List.head?_map, Option.map_map]
  rfl

/-- The last record of a run that ends well is one that its outcome tells of. -/
theorem account_tells (planned : setting.account supply options answers entry = .ok account)
    (enters : Enters setting.workflow log entry)
    (sound : (Chronicle.ofSteps entry.execution.id log).Sound setting.workflow)
    {result : RunResult} (ended : account.ended = .ok result) :
    ∃ stop plan earlier last, setting.workflow.stopPlace options.untilPhase = .ok stop ∧
      setting.plan (options.filtersFor last.configuration) entry.start stop = .ok plan ∧
      account.steps = earlier ++ [.save last] ∧ result.executionId = last.id ∧
      Tells setting.workflow entry.start stop result.outcome last.gist := by
  obtain ⟨stop, plan, stopped, phases, rfl⟩ := exists_plan planned
  obtain ⟨inside, stops⟩ := Workflow.stopPlace_spec stopped
  rcases Course.opening_cases (entry.log_bench setting.registry.catalog answers) with
    ⟨bindings, written, course, opened, opens, continues, state⟩ | ⟨bindings, _, opened⟩
  · obtain ⟨clean, kept⟩ := enters.clean_of_opened sound opens continues
    obtain ⟨earlier, summaries, outcome, last, count, ran, same, tells⟩ :=
      Course.runPhases_tells supply stops inside phases (Course.mayRun_of_opened state) clean
    rw [Course.account_eq opened, ran] at ended ⊢
    obtain rfl := Except.ok.inj ended
    refine ⟨stop, plan, Course.setting bindings ++ [.save written] ++ earlier ++
      [.saveJournal last.execution.id ⟨last.bench.bus.log.take count, last.bench.trail⟩],
      last.execution, stopped, ?_, ?_, rfl, tells⟩
    · rw [same, kept]
      exact phases
    · simp [Course.persisted]
  · rw [Course.account_eq_error opened] at ended
    cases ended

end Setting

/-! ## What the record says of the outcome -/

namespace RunOutcome

variable {workflow : Workflow} {start stop : Nat} {outcome : RunOutcome} {gist : Gist}
  {record : Execution}

/-- Whether an execution may go on by the outcome of its run is what its record says. -/
theorem Tells.mayGoOn_iff (h : Tells workflow start stop outcome gist)
    (same : record.gist = gist) : outcome.MayGoOn workflow ↔ ¬ record.IsFinal workflow := by
  have state : record.state = gist.state := congrArg Gist.state same
  have last : record.lastCompletedPhase = gist.lastCompletedPhase :=
    congrArg Gist.lastCompletedPhase same
  have fatalStop : record.fatalStop = gist.fatalStop := congrArg Gist.fatalStop same
  cases h with
  | completed completed => simp [MayGoOn, Execution.IsFinal, state, completed]
  | stopped name completed => simp [MayGoOn, Execution.IsFinal, state, completed]
  | @failed place phase fatal retryable behind before found retried =>
      have inside := (List.getElem?_eq_some_iff.mp found).1
      have placed := Workflow.placeAfter_of_nameBefore inside.le last
      rw [Execution.isFinal_iff_of_failed state placed found, fatalStop]
      simpa [MayGoOn] using retried
  | @inhibited place phase behind before found count =>
      have inside := (List.getElem?_eq_some_iff.mp found).1
      have placed := Workflow.placeAfter_of_nameBefore inside.le last
      rw [Execution.isFinal_iff_of_failed state placed found, fatalStop]
      have known := List.mem_of_getElem? found
      constructor
      · rintro retried (⟨⟨⟩⟩ | disabled)
        exact retried phase known rfl disabled
      · intro goesOn other mem named disabled
        obtain rfl := List.inj_on_of_nodup_map workflow.nodup_names mem known named
        exact goesOn (.inr disabled)
  | reboot _ _ _ _ _ =>
      simp [MayGoOn, Execution.IsFinal, state, fatalStop]

/-- An execution that may go on goes on where its outcome says, if there is anything left to run. -/
theorem Tells.place (h : Tells workflow start stop outcome gist) (same : record.gist = gist)
    (inside : stop ≤ workflow.phases.length) (goesOn : outcome.MayGoOn workflow) :
    (record.state = .failed ∨ record.state = .awaitingReboot) ∧
    ∃ place, workflow.placeAfter record = .ok place ∧ start ≤ place ∧
      (workflow.phases.take stop)[place]?.map Phase.name = outcome.next? workflow := by
  have state : record.state = gist.state := congrArg Gist.state same
  have last : record.lastCompletedPhase = gist.lastCompletedPhase :=
    congrArg Gist.lastCompletedPhase same
  cases h with
  | completed _ => cases goesOn
  | stopped _ _ => cases goesOn
  | @failed place phase fatal retryable behind before found retried =>
      refine ⟨.inl state, place, Workflow.placeAfter_of_nameBefore (by omega) last, behind, ?_⟩
      rw [List.getElem?_take_of_lt before, found]
      rfl
  | @inhibited place phase behind before found count =>
      refine ⟨.inl state, place, Workflow.placeAfter_of_nameBefore (by omega) last, behind, ?_⟩
      rw [List.getElem?_take_of_lt before, found]
      rfl
  | @reboot place phase behind before found required lastOfAll =>
      refine ⟨.inr state, place + 1, Workflow.placeAfter_of_named found last, by omega, ?_⟩
      simp only [next?, Workflow.position?_eq found, Option.bind_some]
      by_cases more : place + 1 < stop
      · rw [List.getElem?_take_of_lt more]
      · have whole := lastOfAll (by omega)
        rw [List.getElem?_eq_none (by simp; omega), List.getElem?_eq_none (by omega)]

end RunOutcome

/-! ## Calls -/

theorem Entry.mayOpen_of_state {entry : Entry} (resumes : entry.resumes = true)
    (state : entry.execution.state = .failed ∨ entry.execution.state = .awaitingReboot) :
    entry.MayOpen := by
  unfold MayOpen target
  rw [if_pos resumes]
  rcases state with state | state <;> rw [state] <;> decide

/-- A run that takes up what may go on is planned, ends well, and begins where the outcome says. -/
theorem Setting.account_of_tells {setting : Setting} {options : RunOptions} {start stop : Nat}
    {plan : List PlannedPhase} {outcome : RunOutcome} (entry : Entry)
    (stopped : setting.workflow.stopPlace options.untilPhase = .ok stop)
    (planned : setting.plan (options.filtersFor entry.execution.configuration) start stop =
      .ok plan)
    (tells : Tells setting.workflow start stop outcome entry.execution.gist)
    (goesOn : outcome.MayGoOn setting.workflow)
    (placed : setting.workflow.placeAfter entry.execution = .ok entry.start)
    (resumes : entry.resumes = true) (supply : Supply) (answers : Answers) :
    ∃ account value, setting.account supply options answers entry = .ok account ∧
      account.ended = .ok value ∧
      value.phases.head?.map PhaseSummary.phase = outcome.next? setting.workflow ∧
      ∀ turn, .visit turn ∈ RunStep.untilJournal account.steps →
        outcome.next? setting.workflow = some turn.phase := by
  obtain ⟨inside, _⟩ := Workflow.stopPlace_spec stopped
  obtain ⟨state, place, there, order, next⟩ := tells.place rfl inside goesOn
  obtain rfl := Except.ok.inj (placed.symm.trans there)
  obtain ⟨rest, later⟩ := plan_of_later planned order
  have accounted := account_of_plan stopped later supply answers
  have logged := entry.log_bench setting.registry.catalog answers
  obtain ⟨value, ended⟩ :=
    Course.account_ended_of_mayOpen supply logged _ (Entry.mayOpen_of_state resumes state)
  obtain ⟨head, visits⟩ := Course.account_head supply logged _ ended
  rw [head?_of_plan later, next] at head visits
  exact ⟨_, value, accounted, ended, head, visits⟩

section

variable {workflow : Workflow} {σ : Type} [LawfulStore σ] {episodes : List Episode}
  {store after : σ} {id : ExecutionId} {record : Execution}

theorem Entry.sought_of_stored (kind : ExecutionKind)
    (stored : (holdings store).execution? id = some record)
    (answers : ∀ cause, (Store.load id store).1 ≠ .error cause) :
    sought kind (some id) store = (.ok record, (Store.load id store).2) := by
  simp only [sought]
  rcases answer : Store.load id store with ⟨cause | found, next⟩
  · exact absurd (congrArg Prod.fst answer) (answers cause)
  · have same := LawfulStore.eq_of_load (congrArg Prod.fst answer)
    rw [stored] at same
    subst same
    rfl

theorem Entry.resume_of_stored (kind : ExecutionKind) {place : Nat} (own : record.id = id)
    (stored : (holdings store).execution? id = some record)
    (placed : workflow.resumePlace record = .ok place)
    (answers : ∀ cause, (Store.load id store).1 ≠ .error cause) :
    (∃ cause next, resume workflow kind (some id) store = (.error (.store cause), next) ∧
      (Store.loadJournal id (Store.load id store).2).1 = .error cause) ∨
    ∃ journal next, resume workflow kind (some id) store =
      (.ok ⟨record, place, workflow.committedJournal place journal, true⟩, next) := by
  subst own
  unfold resume
  rw [sought_of_stored kind stored answers]
  simp only [placed]
  rcases Store.loadJournal record.id (Store.load record.id store).2 with ⟨cause | journal, next⟩
  · exact .inl ⟨cause, next, rfl, rfl⟩
  · exact .inr ⟨journal, next, rfl⟩

theorem Call.make_of_out {call : Call} {error : RunError}
    (out : (call.setting workflow).entry call.supply call.request store = (.error error, after)) :
    call.make workflow store = (⟨call, [], some (.error error)⟩, after) := by
  unfold make
  rw [out]

theorem Call.make_of_planned {call : Call} {entry : Entry} {account : Account RunResult}
    (entered : (call.setting workflow).entry call.supply call.request store = (.ok entry, after))
    (planned : (call.setting workflow).account call.supply call.options call.answers entry =
      .ok account) :
    call.make workflow store = call.carryOut account after := by
  unfold make
  rw [entered]
  simp only [planned]

/-- A call that ended well has left in the store the record that its outcome tells of. -/
theorem History.tells_of_ended (history : History workflow episodes store) {call : Call}
    (new : call.NamesNew store) {result : RunResult}
    (ended : (call.make workflow store).1.result = some (.ok result)) :
    ∃ last start stop plan,
      (holdings (call.make workflow store).2).execution? result.executionId = some last ∧
      last.id = result.executionId ∧
      workflow.stopPlace call.options.untilPhase = .ok stop ∧
      (call.setting workflow).plan (call.options.filtersFor last.configuration) start stop =
        .ok plan ∧
      Tells workflow start stop result.outcome last.gist := by
  have next := history.call call new
  rcases call.make_eq workflow store with
    ⟨error, out, _⟩ | ⟨entry, account, later, entered, planned, made⟩
  · rw [out] at ended
    cases ended
  have enters := (Setting.entry_spec workflow history.holdings_eq new).2 entry
    (congrArg Prod.fst entered)
  rw [made] at ended next ⊢
  obtain ⟨comes, whole⟩ := (call.carryOut_whole account later).1 result ended
  obtain ⟨stop, plan, earlier, last, stopped, phases, steps, own, tells⟩ :=
    Setting.account_tells planned enters (history.runs.sound _) comes
  refine ⟨last, entry.start, stop, plan, ?_, own.symm, stopped, phases, tells⟩
  rw [next.holdings_eq, History.allSteps_concat, whole, steps]
  show (Chronicle.ofSteps result.executionId _).execution? = _
  rw [Chronicle.ofSteps_append_concat, Chronicle.note_save own.symm]
  rfl

/--
What a call that ended well has said of the future of its execution is true, if it is taken up next
by its name, with the same workflow, registry and options, and the store answers. It is refused
exactly if it may not go on by the outcome. If it may, then it is let in and planned, comes to an
end of its phases, and begins with the phase that comes next by the outcome, if any is left.
-/
theorem History.outcome_foretells (history : History workflow episodes store) {call : Call}
    (new : call.NamesNew store) {result : RunResult}
    (ended : (call.make workflow store).1.result = some (.ok result))
    (same : holdings after = holdings (call.make workflow store).2) {again : Call}
    {kind : ExecutionKind} (request : again.request = .resume kind (some result.executionId))
    (registry : again.registry = call.registry) (options : again.options = call.options)
    (answers : ∀ cause, (Store.load result.executionId after).1 ≠ .error cause) :
    ((∃ cause, (again.make workflow after).1.result = some (.error (.refused cause))) ↔
      ¬ result.outcome.MayGoOn workflow) ∧
    (result.outcome.MayGoOn workflow →
      (∀ cause, (Store.loadJournal result.executionId
        (Store.load result.executionId after).2).1 ≠ .error cause) →
      ∃ entry account next value,
        (again.setting workflow).entry again.supply again.request after = (.ok entry, next) ∧
        (again.setting workflow).account again.supply again.options again.answers entry =
          .ok account ∧
        again.make workflow after = again.carryOut account next ∧ account.ended = .ok value ∧
        value.phases.head?.map PhaseSummary.phase = result.outcome.next? workflow ∧
        ∀ turn, .visit turn ∈ RunStep.untilJournal account.steps →
          result.outcome.next? workflow = some turn.phase) := by
  -- What the store says of the execution is its last record; the guard decides by that alone.
  have later := (history.call call new).idle same
  obtain ⟨last, start, stop, plan, stored, own, stopped, phases, tells⟩ :=
    history.tells_of_ended new ended
  rw [← same] at stored
  obtain ⟨place, placed, accepts, refuses⟩ := later.resumePlace_of_stored stored
  have may := tells.mayGoOn_iff rfl
  have entered : (again.setting workflow).entry again.supply again.request after =
      Entry.resume workflow kind (some result.executionId) after := by
    unfold Setting.entry
    rw [request]
    rfl
  have sameSetting : again.setting workflow = call.setting workflow :=
    congrArg (Setting.mk workflow) registry
  rw [← options] at stopped phases
  rw [← sameSetting] at phases
  have comes (goesOn : result.outcome.MayGoOn workflow) :=
    Entry.resume_of_stored kind own stored (accepts.mpr (may.mp goesOn)) answers
  have begins (goesOn : result.outcome.MayGoOn workflow) (journal : Journal) :=
    Setting.account_of_tells ⟨last, place, workflow.committedJournal place journal, true⟩ stopped
      phases tells goesOn placed rfl again.supply again.answers
  refine ⟨⟨?_, fun stays => ?_⟩, fun goesOn reads => ?_⟩
  · rintro ⟨cause, refused⟩ goesOn
    rcases comes goesOn with ⟨fault, next, out, _⟩ | ⟨journal, next, goesIn⟩
    · rw [Call.make_of_out (entered.trans out)] at refused
      cases refused
    · obtain ⟨account, value, planned, ends, _⟩ := begins goesOn journal
      rw [Call.make_of_planned (entered.trans goesIn) planned] at refused
      rcases again.carryOut_cases account next with ⟨_, right, _⟩ | ⟨_, dies⟩ | ⟨fault, fails, _⟩
      · rw [ends] at right
        cases right.symm.trans refused
      · cases dies.symm.trans refused
      · cases fails.symm.trans refused
  · have final : last.IsFinal workflow := by
      by_contra goesOn
      exact stays (may.mpr goesOn)
    obtain ⟨cause, barred⟩ := refuses.mpr final
    have turnedDown := later.make_of_stored request (Entry.sought_of_stored kind stored answers)
      (own ▸ stored) barred
    exact ⟨cause, by rw [turnedDown]⟩
  · rcases comes goesOn with ⟨fault, next, _, fails⟩ | ⟨journal, next, goesIn⟩
    · exact absurd fails (reads fault)
    · obtain ⟨account, value, planned, ends, head, visits⟩ := begins goesOn journal
      exact ⟨_, account, next, value, entered.trans goesIn, planned,
        Call.make_of_planned (entered.trans goesIn) planned, ends, head, visits⟩

/-- A run that waits for its reboot is let in again when that is done, and begins behind it. -/
theorem History.outcome_foretells_reboot :
    let idle : View → Task Unit := fun _ => pure ()
    let fresh := Call.probing idle (.fresh .upgrade default) none
    let first := fresh.make .rebooting MemoryStore.empty
    ∃ result, first.1.result = some (.ok result) ∧
      result.outcome = .awaitingReboot "prepare" true ∧
      let again := Call.probing idle (.resume .upgrade (some result.executionId)) none
      (∀ cause, (again.make .rebooting first.2).1.result ≠ some (.error (.refused cause))) ∧
      ∃ account next value, again.make .rebooting first.2 = again.carryOut account next ∧
        account.ended = .ok value ∧
        value.phases.head?.map PhaseSummary.phase = some "apply" := by
  intro idle fresh first
  have outcome : first.1.outcome? = some (.awaitingReboot "prepare" true) := by decide +revert
  have new : fresh.NamesNew MemoryStore.empty := Call.namesNew_empty _
  obtain ⟨result, ended, waits⟩ := Episode.outcome?_eq_some_iff.mp outcome
  refine ⟨result, ended, waits, ?_⟩
  intro again
  have goesOn : result.outcome.MayGoOn .rebooting := by
    rw [waits]
    trivial
  have request : again.request = .resume .upgrade (some result.executionId) := rfl
  have registry : again.registry = fresh.registry := rfl
  have options : again.options = fresh.options := rfl
  clear_value fresh again
  obtain ⟨refused, goes⟩ := History.outcome_foretells (History.empty rfl) new ended rfl request
    registry options nofun
  obtain ⟨_, account, next, value, _, _, made, ends, head, _⟩ := goes goesOn nofun
  refine ⟨fun cause same => refused.mp ⟨cause, same⟩ goesOn, account, next, value, made, ends, ?_⟩
  rw [head, waits]
  rfl

end

end PhasedUpgrade
