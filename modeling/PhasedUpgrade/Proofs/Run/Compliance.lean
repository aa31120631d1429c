import PhasedUpgrade.Proofs.Collections.Fallible
import PhasedUpgrade.Proofs.Run.Protocol
import PhasedUpgrade.Run.Perform

/-!
# Runs keep to the protocol

From its opening to its last record a run takes no step that the protocol does not allow, so neither
does a run that is cut off (`Setting.account_progress`). The only change of state that can be
refused is the first one.
-/

namespace PhasedUpgrade

namespace Course

variable {workflow : Workflow} {entry : Entry} {done : List RunStep} {course : Course}
  {written : Execution} {log : List Message} {place : Nat}

structure Continues (course : Course) (written : Execution) (log : List Message) : Prop where
  execution_eq : ∃ time, course.execution = written.marked course.execution.state time
  log_eq : course.bench.bus.log = log

theorem Continues.id_eq (h : course.Continues written log) : course.execution.id = written.id := by
  obtain ⟨time, same⟩ := h.execution_eq
  rw [same]
  rfl

theorem Continues.eq_marked (h : course.Continues written log)
    (running : course.execution.state = .running) :
    ∃ time, course.execution = written.marked .running time := by
  obtain ⟨time, same⟩ := h.execution_eq
  exact ⟨time, running ▸ same⟩

/-- Whatever the verdict on a phase, the record and the journal after it end the attempt. -/
theorem ends_of_trial (continues : course.Continues written log)
    (running : course.execution.state = .running) {phase : Phase} {trial : Trial}
    (found : workflow.phases[place]? = some phase) (tried : TrialOf course phase trial)
    (supply : Supply) :
    let after := trial.course.heeded supply trial.verdict
    ((⟨written, log, place, []⟩ : Attempt).extended trial.visits).Ends workflow after.execution
      (after.bench.bus.log.take (course.keptBy trial after))
      (decide (trial.verdict = .onward)) := by
  intro after
  obtain ⟨time, same⟩ := continues.eq_marked running
  obtain ⟨time₁, noted⟩ := tried.execution_eq
  have whole : after.bench.bus.log = log ++ trial.visits.flatMap Visit.produced := by
    rw [show after.bench.bus = trial.course.bench.bus from bus_heeded trial.verdict, tried.log_eq,
      continues.log_eq]
  have keepsAll (commits : trial.verdict.commits = true) :
      after.bench.bus.log.take (course.keptBy trial after) =
        log ++ trial.visits.flatMap Visit.produced := by
    rw [keptBy, if_pos commits, List.take_length, whole]
  have keepsOld (drops : trial.verdict.commits = false) :
      after.bench.bus.log.take (course.keptBy trial after) = log := by
    rw [keptBy, if_neg (by simp [drops]), whole, continues.log_eq, List.take_left]
  have gate (commits : trial.verdict.commits = true) (gated : phase.stopIfInhibited = true) :
      Message.inhibit (log ++ trial.visits.flatMap Visit.produced) = false := by
    have free := tried.gate commits gated
    rwa [tried.log_eq, continues.log_eq] at free
  cases verdict : trial.verdict with
  | failed terminal retryable =>
      have record : after.execution = (written.failPhase phase.name terminal time₁).marked .failed
          (trial.course.now supply) := by
        rw [execution_heeded (by rw [verdict]; rfl), noted, verdict, same]
        rfl
      rw [record, keepsOld (by rw [verdict]; rfl)]
      exact .failed found terminal time₁ _
  | inhibited count =>
      have record : after.execution = (written.failPhase phase.name false time₁).marked .failed
          (trial.course.now supply) := by
        rw [execution_heeded (by rw [verdict]; rfl), noted, verdict, same]
        rfl
      rw [record, keepsOld (by rw [verdict]; rfl)]
      exact .failed found false time₁ _
  | stopped =>
      have commits : trial.verdict.commits = true := by rw [verdict]; rfl
      have record : after.execution = (written.commitPhase phase.name time₁).marked .completed
          (trial.course.now supply) := by
        rw [execution_heeded (by rw [verdict]; rfl), noted, verdict, same]
        rfl
      rw [record, keepsAll commits]
      exact .committed found (gate commits) .stopped time₁ _
  | reboot required =>
      have commits : trial.verdict.commits = true := by rw [verdict]; rfl
      have record : after.execution = (written.commitPhase phase.name time₁).marked .awaitingReboot
          (trial.course.now supply) := by
        rw [execution_heeded (by rw [verdict]; rfl), noted, verdict, same]
        rfl
      rw [record, keepsAll commits]
      exact .committed found (gate commits) (.reboot (tried.reboot required verdict)) time₁ _
  | onward =>
      have commits : trial.verdict.commits = true := by rw [verdict]; rfl
      have record : after.execution = (written.commitPhase phase.name time₁).marked .running
          time₁ := by
        show (trial.course.heeded supply trial.verdict).execution = _
        rw [verdict, heeded_onward, noted, verdict, same]
        rfl
      rw [record, keepsAll commits]
      exact .committed found (gate commits) .onward time₁ _

/-- A run that goes on after a phase goes on from the record of that phase, still running. -/
theorem continues_of_onward (continues : course.Continues written log)
    (running : course.execution.state = .running) {phase : Phase} {trial : Trial}
    (tried : TrialOf course phase trial) (supply : Supply) (onward : trial.verdict = .onward) :
    let after := trial.course.heeded supply trial.verdict
    after.Continues after.execution (log ++ trial.visits.flatMap Visit.produced) ∧
      after.execution.state = .running := by
  intro after
  obtain ⟨time, noted⟩ := tried.execution_eq
  have same : after = trial.course := by
    show trial.course.heeded supply trial.verdict = _
    rw [onward, heeded_onward]
  refine ⟨⟨⟨after.execution.updatedAt, rfl⟩, ?_⟩, ?_⟩
  · rw [same, tried.log_eq, continues.log_eq]
  · rw [same, noted, state_note, running]

variable {supply : Supply} {bench : Workbench} {hasPhases : Bool}

/-- The opening of a run is a protocol step, or else a change of state is refused. -/
theorem opening_cases (logged : bench.bus.log = entry.journal.messages) :
    (∃ bindings written course, opening supply entry bench hasPhases =
        ⟨setting bindings ++ [.save written], .ok course⟩ ∧ entry.Opens written ∧
      course.Continues written entry.journal.messages ∧
      (course.execution.state = .running ∨
        course.execution.state = .resumed ∧ hasPhases = false)) ∨
    ∃ bindings, ¬ entry.MayOpen ∧ opening supply entry bench hasPhases =
      ⟨setting bindings, .error (.transition ⟨entry.execution.state.name, entry.target.name⟩)⟩ := by
  unfold opening Entry.MayOpen Entry.target
  cases resumes : entry.resumes with
  | false =>
      by_cases legal : .running ∈ entry.execution.state.successors
      · refine .inl ⟨[], _, _, begin_eq legal, .begun resumes legal _, ⟨⟨_, rfl⟩, logged⟩, .inl rfl⟩
      · exact .inr ⟨[], by simpa using legal, begin_eq_error legal⟩
  | true =>
      by_cases legal : .resumed ∈ entry.execution.state.successors
      · refine .inl ⟨_, _, _, resume_eq legal hasPhases, .resumed resumes legal _, ?_, ?_⟩
        · cases hasPhases <;> exact ⟨⟨_, rfl⟩, logged⟩
        · cases hasPhases with
          | true => exact .inl rfl
          | false => exact .inr ⟨rfl, rfl⟩
      · exact .inr ⟨_, by simpa using legal, resume_eq_error legal hasPhases⟩

theorem head_of_prefix_drop {phases rest : List Phase} {phase : Phase}
    (h : phase :: rest <+: phases.drop place) :
    phases[place]? = some phase ∧ rest <+: phases.drop (place + 1) := by
  obtain ⟨others, whole⟩ := h
  constructor
  · have first := congrArg (fun list => list[0]?) whole
    simpa using first.symm
  · have later := congrArg (List.drop 1) whole
    rw [List.drop_drop] at later
    exact ⟨others, by simpa using later⟩

theorem runPhases_admitted {plan : List PlannedPhase} (supply : Supply)
    (isLastWanted : Phase → Bool)
    (h : Progress workflow entry done (.trying ⟨written, log, place, []⟩))
    (continues : course.Continues written log) (mayRun : course.MayRun plan)
    (planned : plan.map PlannedPhase.phase <+: workflow.phases.drop place) :
    Admitted workflow entry done (runPhases supply isLastWanted plan course).steps := by
  induction plan generalizing course done written log place with
  | nil =>
      obtain ⟨time, same⟩ := continues.execution_eq
      rw [runPhases_nil mayRun.completed_mem]
      refine (h.persisted (.closed rfl (course.now supply)) ?_ rfl ?_).1
      · show course.execution.marked .completed _ = _
        rw [same]
        rfl
      · show course.bench.bus.log.take _ = _
        rw [List.take_length, continues.log_eq]
  | cons first rest ih =>
      have running := mayRun.running
      obtain ⟨found, others⟩ := head_of_prefix_drop planned
      have tried := tryPhase_spec course supply isLastWanted first
      generalize same : course.tryPhase supply isLastWanted first = trial at tried
      have turns : ∀ visit ∈ trial.visits, visit.OfPhase written.id first.phase.name :=
        fun visit mem => continues.id_eq ▸ tried.visits visit mem
      have ends := ends_of_trial continues running found tried supply
      obtain ⟨finished, standing⟩ :=
        (h.visits found turns).persisted ends rfl ends.id_eq rfl
      have whole := (h.visits_admitted found turns).append finished
      rcases runPhases_cons_cases running same rest with ⟨outcome, _, ran⟩ | ⟨onward, still, ran⟩
      · rw [ran]
        exact whole
      · obtain ⟨later, _⟩ := continues_of_onward continues running tried supply onward
        have goesOn : decide (trial.verdict = .onward) = true := by simp [onward]
        rw [goesOn, List.append_assoc] at standing
        rw [ran]
        exact whole.append (ih standing later (.inl still) others)

theorem mayRun_of_opened {plan : List PlannedPhase}
    (h : course.execution.state = .running ∨
      course.execution.state = .resumed ∧ (!plan.isEmpty) = false) : course.MayRun plan := by
  rcases h with running | ⟨resumed, none⟩
  · exact .inl running
  · exact .inr ⟨resumed, by simpa using none⟩

theorem account_admitted {plan : List PlannedPhase} (supply : Supply)
    (logged : bench.bus.log = entry.journal.messages)
    (planned : plan.map PlannedPhase.phase <+: workflow.phases.drop entry.start)
    (isLastWanted : Phase → Bool) :
    Admitted workflow entry [] (account supply entry bench isLastWanted plan).steps := by
  rcases opening_cases logged with
    ⟨bindings, written, course, opened, opens, continues, state⟩ | ⟨bindings, _, opened⟩
  · rw [account_eq opened]
    have outside : Progress workflow entry ([] ++ setting bindings) .outside :=
      Progress.start.settings bindings
    have entered := outside.enter opens
    have mayRun := mayRun_of_opened state
    have first := (Progress.start.settings_admitted bindings).append
      (Admitted.cons outside (.nil entered))
    have later := runPhases_admitted supply isLastWanted entered continues mayRun planned
    rw [List.append_assoc] at later
    exact first.append later
  · rw [account_eq_error opened]
    exact Progress.start.settings_admitted bindings

/-- Past the opening no change of state is refused. -/
theorem account_ended_of_mayOpen {plan : List PlannedPhase} (supply : Supply)
    (logged : bench.bus.log = entry.journal.messages) (isLastWanted : Phase → Bool)
    (legal : entry.MayOpen) :
    ∃ value, (account supply entry bench isLastWanted plan).ended = .ok value := by
  rcases opening_cases logged with
    ⟨bindings, written, course, opened, _, _, state⟩ | ⟨_, illegal, _⟩
  · have mayRun : course.MayRun plan := mayRun_of_opened state
    obtain ⟨value, ended⟩ : ∃ value,
        (runPhases supply isLastWanted plan course).ended = .ok value :=
      runPhases_ended mayRun isLastWanted
    rw [account_eq opened, ended]
    exact ⟨_, rfl⟩
  · exact absurd legal illegal

/-- A run whose opening is refused ends right there, before anything is written. -/
theorem account_of_not_mayOpen {plan : List PlannedPhase} (supply : Supply)
    (logged : bench.bus.log = entry.journal.messages) (isLastWanted : Phase → Bool)
    (illegal : ¬ entry.MayOpen) :
    ∃ bindings, account supply entry bench isLastWanted plan =
      ⟨setting bindings, .error (.transition ⟨entry.execution.state.name, entry.target.name⟩)⟩ := by
  rcases opening_cases logged with ⟨_, _, _, opened, opens, _, _⟩ | ⟨bindings, _, opened⟩
  · exact absurd opens.mayOpen illegal
  · exact ⟨bindings, account_eq_error opened isLastWanted⟩

end Course

/-! ## Runs of settings -/

namespace Setting

variable {setting : Setting}

theorem map_phase_plan {filters : Filters} {start stop : Nat} {plan : List PlannedPhase}
    (h : setting.plan filters start stop = .ok plan) :
    plan.map PlannedPhase.phase = (setting.workflow.phases.take stop).drop start := by
  have planned := Except.mapM_eq_ok_iff.mp h
  generalize (setting.workflow.phases.take stop).drop start = phases at planned
  clear h
  induction planned with
  | nil => rfl
  | cons first later ih =>
      obtain ⟨actors, _, same⟩ := Except.exists_of_bind_eq_ok first
      cases same
      rw [List.map_cons, ih]

theorem eq_account {supply : Supply} {options : RunOptions} {answers : Answers} {entry : Entry}
    {account : Account RunResult}
    (h : setting.account supply options answers entry = .ok account) :
    ∃ bench isLastWanted plan, account = Course.account supply entry bench isLastWanted plan ∧
      bench.bus.log = entry.journal.messages ∧
      plan.map PlannedPhase.phase <+: setting.workflow.phases.drop entry.start := by
  unfold Setting.account at h
  obtain ⟨stop, _, h⟩ := Except.exists_of_bind_eq_ok h
  obtain ⟨plan, planned, h⟩ := Except.exists_of_bind_eq_ok h
  refine ⟨_, _, plan, (Except.ok.inj h).symm, rfl, ?_⟩
  rw [map_phase_plan (Except.eq_ok_of_mapError planned)]
  exact (List.take_prefix stop _).drop entry.start

/-- However far a run is carried out, it keeps to the protocol. -/
theorem account_progress {supply : Supply} {options : RunOptions} {answers : Answers}
    {entry : Entry} {account : Account RunResult}
    (h : setting.account supply options answers entry = .ok account) {done : List RunStep}
    (first : done <+: account.steps) :
    ∃ standing, Progress setting.workflow entry done standing := by
  obtain ⟨bench, isLastWanted, plan, rfl, logged, planned⟩ := eq_account h
  exact Course.account_admitted supply logged planned isLastWanted done first

end Setting

end PhasedUpgrade
