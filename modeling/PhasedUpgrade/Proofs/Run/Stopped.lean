import PhasedUpgrade.Proofs.Dispatch.Breach
import PhasedUpgrade.Proofs.Run.Ending

/-!
# Executions that are stopped for good

An actor whose end is terminal is the last one to act in its run. The run ends with a record that
marks the execution as stopped for good, and since no run takes up an execution that is so marked,
nothing that happens later writes another record of it.
-/

namespace PhasedUpgrade

open LawfulStore (holdings)

/-! ## How a terminal end shows -/

/-- The record of an execution that a phase has stopped for good. -/
structure Execution.StoppedIn (execution : Execution) (phase : String) : Prop where
  state : execution.state = .failed
  failedPhase : execution.failedPhase = some phase
  fatalStop : execution.fatalStop = true

/-- What a run tells that has been stopped for good with a visit. -/
structure RunResult.StoppedWith (result : RunResult) (turn : Visit) : Prop where
  executionId : result.executionId = turn.execution
  state : result.state = .failed
  outcome : result.outcome = .failed turn.phase false
  phase_failed : ∃ summary, result.phases.getLast? = some summary ∧ summary.phase = turn.phase ∧
    summary.status = .failed

theorem Verdict.ofResult_of_terminal {phase : Phase} {outcomes : List Outcome}
    (h : (PhaseResult.conclude phase outcomes).terminal = true) (bus : Bus) (isLastWanted : Bool) :
    ofResult phase (.conclude phase outcomes) bus isLastWanted = .failed true false := by
  unfold ofResult PhaseResult.succeeded
  rw [PhaseResult.failed_of_terminal h, h]
  rfl

namespace Course

variable {supply : Supply} {course : Course} {plan : List PlannedPhase} {turn : Visit}

theorem verdict_of_terminal {isLastWanted : Phase → Bool} {planned : PlannedPhase} {trial : Trial}
    (tried : course.tryPhase supply isLastWanted planned = trial) (mem : turn ∈ trial.visits)
    (terminal : turn.result.isTerminal = true) :
    trial.verdict = .failed true false ∧ trial.result.summary.phase = planned.phase.name ∧
      trial.result.summary.status = .failed := by
  subst tried
  have judged : (course.tryPhase supply isLastWanted planned).result.terminal = true :=
    PhaseResult.terminal_iff.mpr ⟨turn.outcome, List.mem_map_of_mem mem, terminal⟩
  exact ⟨Verdict.ofResult_of_terminal judged _ _, rfl, PhaseResult.failed_of_terminal judged⟩

theorem persisted_eq (course : Course) (count : Nat) : course.persisted count =
    [.saveJournal course.execution.id ⟨course.bench.bus.log.take count, course.bench.trail⟩] ++
      [.save course.execution] := rfl

/-- A terminal visit is one of the last phase of its run, and the last record says so. -/
theorem runPhases_of_terminal (mayRun : course.MayRun plan) (isLastWanted : Phase → Bool)
    (acts : .visit turn ∈ (runPhases supply isLastWanted plan course).steps)
    (terminal : turn.result.isTerminal = true) :
    ∃ earlier summaries summary last, runPhases supply isLastWanted plan course =
        ⟨earlier ++ [.save last.execution],
          .ok (summaries ++ [summary], .failed turn.phase false, last)⟩ ∧
      summary.phase = turn.phase ∧ summary.status = .failed ∧
      last.execution.id = turn.execution ∧ last.execution.StoppedIn turn.phase := by
  induction plan generalizing course with
  | nil =>
      rw [runPhases_nil mayRun.completed_mem] at acts
      cases mem_of_visit_mem (show .visit turn ∈ [].map RunStep.visit ++ _ from acts)
  | cons planned rest ih =>
      have spec := tryPhase_spec course supply isLastWanted planned
      generalize tried : course.tryPhase supply isLastWanted planned = trial at spec
      rcases runPhases_cons_cases mayRun.running tried rest with
        ⟨outcome, ending, ran⟩ | ⟨onward, still, ran⟩
      · rw [ran] at acts ⊢
        have mem := mem_of_visit_mem acts
        obtain ⟨verdict, named, failed⟩ := verdict_of_terminal tried mem terminal
        obtain ⟨time, noted⟩ := spec.execution_eq
        have own := spec.visits turn mem
        rw [verdict] at ending noted ⊢
        obtain rfl := Option.some.inj ending
        have record : (trial.course.heeded supply (.failed true false)).execution =
            trial.course.execution.marked .failed (trial.course.now supply) := execution_heeded rfl
        rw [noted] at record
        rw [own.phase_eq, own.execution_eq]
        generalize trial.course.heeded supply (.failed true false) = after at record ⊢
        rw [persisted_eq, ← List.append_assoc]
        refine ⟨_, [], trial.result.summary, after, rfl, named, failed, ?_, ?_⟩
        · rw [record]
          rfl
        · rw [record]
          exact ⟨rfl, rfl, rfl⟩
      · rw [ran] at acts ⊢
        rcases List.mem_append.mp acts with here | later
        · obtain ⟨verdict, _, _⟩ :=
            verdict_of_terminal tried (mem_of_visit_mem here) terminal
          cases verdict.symm.trans onward
        · obtain ⟨earlier, summaries, summary, last, ranOn, stopped⟩ := ih (.inl still) later
          rw [ranOn]
          simp only [← List.append_assoc]
          exact ⟨_, trial.result.summary :: summaries, summary, last, rfl, stopped⟩

theorem account_of_terminal {entry : Entry} {bench : Workbench}
    (logged : bench.bus.log = entry.journal.messages) (isLastWanted : Phase → Bool)
    (acts : .visit turn ∈ (account supply entry bench isLastWanted plan).steps)
    (terminal : turn.result.isTerminal = true) :
    ∃ earlier last result, account supply entry bench isLastWanted plan =
        ⟨earlier ++ [.save last], .ok result⟩ ∧
      last.id = turn.execution ∧ last.StoppedIn turn.phase ∧ result.StoppedWith turn := by
  rcases opening_cases logged with
    ⟨bindings, written, course, opened, _, _, state⟩ | ⟨bindings, _, opened⟩
  · rw [account_eq opened] at acts ⊢
    have acts : .visit turn ∈ (runPhases supply isLastWanted plan course).steps := by
      simpa [Course.setting] using acts
    obtain ⟨earlier, summaries, summary, last, ran, named, failed, own, stopped⟩ :=
      runPhases_of_terminal (mayRun_of_opened state) isLastWanted acts terminal
    rw [ran]
    simp only [← List.append_assoc]
    exact ⟨_, last.execution, _, rfl, own, stopped, own, stopped.state, rfl, summary,
      List.getLast?_concat, named, failed⟩
  · rw [account_eq_error opened] at acts
    simp [Course.setting] at acts

end Course

/-! ## What comes afterwards -/

namespace Workflow

variable {workflow : Workflow} {execution : Execution}

theorem resumePlace_of_stoppedIn {phase : String} {place : Nat}
    (own : execution.workflow = workflow.name) (placed : workflow.placeAfter execution = .ok place)
    (stopped : execution.StoppedIn phase) :
    workflow.resumePlace execution = .error (.refused (.fatalStop phase)) := by
  unfold resumePlace checkRetry
  simp only [own, placed, stopped.state, stopped.fatalStop, stopped.failedPhase, ne_eq,
    not_true_eq_false, if_false, if_true]
  rfl

end Workflow

section

variable {workflow : Workflow} {runs : List (List RunStep)}

theorem Runs.of_concat {done : List RunStep} (h : Runs workflow (runs ++ [done])) :
    Runs workflow runs ∧ (done = [] ∨ ∃ entry standing, Enters workflow runs.flatten entry ∧
      Progress workflow entry done standing) := by
  generalize whole : runs ++ [done] = all at h
  cases h with
  | none => simp at whole
  | idle earlier =>
      obtain ⟨rfl, last⟩ := List.append_inj' whole rfl
      exact ⟨earlier, .inl (List.singleton_inj.mp last)⟩
  | run earlier enters progress =>
      obtain ⟨rfl, last⟩ := List.append_inj' whole rfl
      obtain rfl := List.singleton_inj.mp last
      exact ⟨earlier, .inr ⟨_, _, enters, progress⟩⟩

/-- No step of the runs that follow is about an execution whose record may not be taken up again. -/
theorem Runs.not_concerns_of_barred {later : List (List RunStep)}
    (h : Runs workflow (runs ++ later)) {id : ExecutionId} {record : Execution} {error : RunError}
    (stored : (Chronicle.ofSteps id runs.flatten).execution? = some record)
    (barred : workflow.resumePlace record = .error error) :
    ∀ step ∈ later.flatten, ¬ step.concerns id := by
  induction later using List.reverseRecOn with
  | nil => exact fun _ none => nomatch none
  | append_singleton later done ih =>
      rw [← List.append_assoc] at h
      obtain ⟨earlier, own⟩ := h.of_concat
      have before := ih earlier
      rw [List.flatten_append, List.flatten_singleton]
      refine List.forall_mem_append.mpr ⟨before, fun step mem concerns => ?_⟩
      rcases own with nothing | ⟨entry, standing, enters, progress⟩
      · rw [nothing] at mem
        cases mem
      · -- The run has been let in, so what it found is another record.
        obtain rfl := progress.own step mem id concerns
        rw [List.flatten_append] at enters
        have kept := stored
        rw [← Chronicle.ofSteps_append_of_not_concerns runs.flatten before] at kept
        cases enters with
        | fresh new _ _ _ => cases new.symm.trans kept
        | resumed found placed =>
            obtain rfl := Option.some.inj (found.symm.trans kept)
            cases placed.symm.trans barred

variable {σ : Type} [LawfulStore σ] {episodes : List Episode} {store : σ}

theorem Call.make_of_barred {call : Call} {kind : ExecutionKind} {id : Option ExecutionId}
    (request : call.request = .resume kind id) {execution : Execution} {after : σ}
    (sought : Entry.sought kind id store = (.ok execution, after)) {error : RunError}
    (barred : workflow.resumePlace execution = .error error) :
    call.make workflow store = (⟨call, [], some (.error error)⟩, after) := by
  unfold make Setting.entry Entry.resume
  simp only [request, sought, Call.setting, barred]

/-- What is to end well does so, unless its process dies or its store fails. -/
theorem Call.result_of_ended {call : Call} {account : Account RunResult} {value : RunResult}
    (h : account.ended = .ok value) :
    ((call.carryOut account store).1.result = none ∧ call.lifespan ≠ none) ∨
      (∃ cause, (call.carryOut account store).1.result = some (.error (.store cause))) ∨
      (call.carryOut account store).1.result = some (.ok value) := by
  rcases call.carryOut_cases account store with
    ⟨_, result, _⟩ | ⟨dies, result⟩ | ⟨cause, result, _⟩
  · exact .inr (.inr (result.trans (congrArg some h)))
  · refine .inl ⟨result, fun lives => ?_⟩
    unfold Call.survives at dies
    rw [lives] at dies
    cases dies
  · exact .inr (.inl ⟨cause, result⟩)

/--
What a phase has stopped for good is recorded as such in the store, and is not taken up again.
-/
structure Workflow.Stopped (workflow : Workflow) (store : σ) (id : ExecutionId) (phase : String) :
    Prop where
  recorded : ∃ record, (holdings store).execution? id = some record ∧ record.StoppedIn phase
  refused : ∀ (call : Call) (kind : ExecutionKind) (name : Option ExecutionId)
    (execution : Execution) (after : σ), call.request = .resume kind name →
      Entry.sought kind name store = (.ok execution, after) → execution.id = id →
      call.make workflow store =
        (⟨call, [], some (.error (.refused (.fatalStop phase)))⟩, after)

namespace History

variable {after : σ} {record : Execution} {error : RunError}

theorem not_concerns_of_barred {later : List Episode} (first : History workflow episodes store)
    (history : History workflow (episodes ++ later) after) {id : ExecutionId}
    (stored : (holdings store).execution? id = some record)
    (barred : workflow.resumePlace record = .error error) :
    ∀ step ∈ Episode.allSteps later, ¬ step.concerns id := by
  have runs := history.runs
  rw [List.map_append] at runs
  rw [first.holdings_eq] at stored
  exact runs.not_concerns_of_barred stored barred

theorem holdings_of_not_concerns {later : List Episode} (first : History workflow episodes store)
    (history : History workflow (episodes ++ later) after) {id : ExecutionId}
    (apart : ∀ step ∈ Episode.allSteps later, ¬ step.concerns id) :
    (holdings after).execution? id = (holdings store).execution? id ∧
      (holdings after).journal id = (holdings store).journal id := by
  have whole : Episode.allSteps (episodes ++ later) =
      Episode.allSteps episodes ++ Episode.allSteps later := by simp [Episode.allSteps]
  have same := Chronicle.ofSteps_append_of_not_concerns (Episode.allSteps episodes) apart
  rw [history.holdings_eq, first.holdings_eq, whole]
  exact ⟨congrArg Chronicle.execution? same, congrArg Chronicle.journal same⟩

/-- What may not be taken up stays as it is in the store, whatever calls follow. -/
theorem stored_of_barred {later : List Episode} (first : History workflow episodes store)
    (history : History workflow (episodes ++ later) after) {id : ExecutionId}
    (stored : (holdings store).execution? id = some record)
    (barred : workflow.resumePlace record = .error error) :
    (holdings after).execution? id = some record :=
  (first.holdings_of_not_concerns history
    (first.not_concerns_of_barred history stored barred)).1.trans stored

theorem make_of_stored (history : History workflow episodes store) {call : Call}
    {kind : ExecutionKind} {id : Option ExecutionId} (request : call.request = .resume kind id)
    {execution : Execution} (sought : Entry.sought kind id store = (.ok execution, after))
    (stored : (holdings store).execution? execution.id = some record)
    (barred : workflow.resumePlace record = .error error) :
    call.make workflow store = (⟨call, [], some (.error error)⟩, after) := by
  have found := Entry.stored_of_sought (fun name _ => holdings_eq_iff.mp history.holdings_eq name)
    (congrArg Prod.fst sought)
  obtain rfl := Option.some.inj (found.symm.trans stored)
  exact Call.make_of_barred request sought barred

/-- Once it is recorded that a phase has stopped an execution, that stays so for good. -/
theorem stopped_of_stored {later : List Episode} (first : History workflow episodes store)
    (history : History workflow (episodes ++ later) after) {id : ExecutionId} {phase : String}
    (stored : (holdings store).execution? id = some record) (stops : record.StoppedIn phase) :
    workflow.Stopped after id phase := by
  have barred : workflow.resumePlace record = .error (.refused (.fatalStop phase)) := by
    have sound := first.runs.sound id
    have known := stored
    rw [first.holdings_eq] at known
    exact Workflow.resumePlace_of_stoppedIn (sound.underway record known).workflow_eq
      (sound.placeAfter_eq known) stops
  have kept := first.stored_of_barred history stored barred
  refine ⟨⟨record, kept, stops⟩, fun call kind name execution other request sought own => ?_⟩
  rw [← own] at kept
  exact history.make_of_stored request sought kept barred

end History

/-- Whether a visit is a turn in which an actor hands on a breach. -/
def Visit.EndsWithBreach (supply : Supply) (turn : Visit) : Prop :=
  ∃ actor execution bench cause, turn = (make supply execution turn.phase actor bench).1 ∧
    HandsOn supply execution turn.phase cause actor bench

theorem Visit.EndsWithBreach.isTerminal {supply : Supply} {turn : Visit}
    (h : turn.EndsWithBreach supply) : turn.result.isTerminal = true := by
  obtain ⟨actor, execution, bench, cause, made, handsOn⟩ := h
  rw [made, handsOn.result_eq]
  rfl

/--
A breach that its actor hands on fails the phase for good under any error policy, and an actor that
heeds breaches hands on the first that it is told of. Whatever else an actor does about one, its
phase is failed for good just by a terminal end. After any history the call with such an end gives a
failure that is not to be retried, unless its process dies or its store fails. Then, whatever calls
follow, the record of the execution says that the phase has stopped it, and nobody is let in to take
it up.
-/
theorem History.stopped_for_good (history : History workflow episodes store) {call : Call}
    (new : call.NamesNew store) :
    (∀ (phase : Phase) (supply : Supply) (execution : Execution) (actors : List Actor)
        (bench : Workbench),
      let result := phase.judge supply execution actors bench
      (∀ (actor : Actor) found cause, actor.Heeds →
        (Visit.breaches supply execution phase.name actor found).head? = some cause →
        Visit.HandsOn supply execution phase.name cause actor found) ∧
      (∀ actor found cause, (actor, found) ∈ phase.turns supply execution actors bench →
        Visit.HandsOn supply execution phase.name cause actor found →
        result.status = .failed ∧ result.terminal = true ∧
          result.outcomes.getLast? = some ⟨actor.name, .violation cause⟩) ∧
      (result.terminal = true ↔
        ∃ outcome ∈ result.outcomes, outcome.result.isTerminal = true)) ∧
    ∀ turn, .visit turn ∈ (call.make workflow store).1.steps →
      turn.result.isTerminal = true ∨ turn.EndsWithBreach call.supply →
      ((call.make workflow store).1.result = none ∧ call.lifespan ≠ none) ∨
        (∃ cause, (call.make workflow store).1.result = some (.error (.store cause))) ∨
        ∃ result, (call.make workflow store).1.result = some (.ok result) ∧
          result.StoppedWith turn ∧ ∀ (later : List Episode) (after : σ),
            History workflow (episodes ++ (call.make workflow store).1 :: later) after →
            workflow.Stopped after turn.execution turn.phase := by
  refine ⟨fun phase supply execution actors bench => ?_, fun turn acts reason => ?_⟩
  · exact ⟨fun _ _ _ heeds first => Visit.handsOn_of_heeds heeds first,
      fun _ _ _ takes handsOn => Phase.judge_of_breach takes handsOn, PhaseResult.terminal_iff⟩
  have terminal : turn.result.isTerminal = true := reason.elim id Visit.EndsWithBreach.isTerminal
  have next := history.call call new
  rcases call.make_eq workflow store with
    ⟨error, out, _⟩ | ⟨entry, account, after, entered, planned, made⟩
  · rw [out] at acts
    cases acts
  obtain ⟨bench, isLastWanted, plan, same, logged, _⟩ := Setting.eq_account planned
  rw [made] at acts next ⊢
  have acts := (call.carryOut_prefix account after).subset acts
  rw [same] at acts
  obtain ⟨earlier, last, value, comes, own, stopped, tells⟩ :=
    Course.account_of_terminal logged isLastWanted acts terminal
  rw [← same] at comes
  refine (Call.result_of_ended (congrArg Account.ended comes)).imp_right (Or.imp_right ?_)
  refine fun result => ⟨value, result, tells, fun later final history' => ?_⟩
  have whole := ((call.carryOut_whole account after).1 value result).2
  generalize call.carryOut account after = episode at next whole history'
  have stored : (holdings episode.2).execution? turn.execution = some last := by
    rw [next.holdings_eq, History.allSteps_concat, whole, comes]
    show (Chronicle.ofSteps turn.execution _).execution? = _
    rw [Chronicle.ofSteps_append_concat, Chronicle.note_save own]
    rfl
  rw [List.append_cons] at history'
  exact next.stopped_of_stored history' stored stopped

/-- Whether a step is a turn in a phase of an execution that ends for good. -/
def RunStep.stopsIn (id : ExecutionId) (phase : String) : RunStep → Bool
  | .visit turn => turn.execution = id && turn.phase = phase && turn.result.isTerminal
  | .setVariable _ _ | .save _ | .saveJournal _ _ => false

/--
An actor that reads what it has not declared stops the upgrade, though failures are only reported.
-/
theorem History.stopped_for_good_by_reader :
    let read : View → Task Unit := fun _ => Task.consume "Report" >>= fun _ => pure ()
    let phase := { Phase.plain "apply" "upgrade" with errorPolicy := .reportOnly }
    let execution : Execution := .create default .upgrade "upgrade" default .epoch
    let bench : Workbench := ⟨⟨.builtin, []⟩, .empty, [], 0⟩
    let call := Call.probing read (.fresh .upgrade default) none
    let first := call.make (.single phase) MemoryStore.empty
    (phase.judge call.supply execution [.probe read] bench).terminal = true ∧
      first.1.outcome? = some (.failed "apply" false) ∧
      (Workflow.single phase).Stopped first.2 default "apply" := by
  intro read phase execution bench call first
  have told : (Visit.breaches call.supply execution "apply" (.probe read) bench).head? =
      some (.undeclaredConsume "probe" "Report") := by decide
  have outcome : first.1.outcome? = some (.failed "apply" false) := by decide +revert
  have acts : first.1.steps.any (RunStep.stopsIn default "apply") = true := by decide +revert
  have heeds : (Actor.probe read).Heeds := fun _ =>
    (Task.heeds_consume "Report").bind fun _ => Task.heeds_pure ()
  have empty : History (.single phase) [] MemoryStore.empty := .empty rfl
  have begun : History (.single phase) [first.1] first.2 := empty.call call call.namesNew_empty
  obtain ⟨judged, stops⟩ := empty.stopped_for_good call.namesNew_empty
  -- The evaluated run stays out of what follows: it is compared with itself only.
  rw [show (LawfulStore.toStore : Store MemoryStore) = MemoryStore.instStore from rfl,
    show call.make (.single phase) MemoryStore.empty = first from rfl] at stops
  clear_value first
  obtain ⟨handsOn, fails, _⟩ := judged phase call.supply execution [.probe read] bench
  refine ⟨(fails _ bench _ List.mem_cons_self (handsOn _ bench _ heeds told)).2.1, outcome, ?_⟩
  obtain ⟨result, ended, _⟩ := Episode.outcome?_eq_some_iff.mp outcome
  obtain ⟨step, mem, own⟩ := List.any_eq_true.mp acts
  cases step with
  | visit turn =>
      simp only [RunStep.stopsIn, Bool.and_eq_true, decide_eq_true_eq] at own
      obtain ⟨⟨mine, here⟩, terminal⟩ := own
      rcases stops turn mem (.inl terminal) with ⟨_, dies⟩ | ⟨_, fault⟩ | ⟨_, _, _, stopped⟩
      · exact absurd rfl dies
      · cases ended.symm.trans fault
      · simpa only [mine, here] using stopped [] first.2 begun
  | setVariable _ _ | save _ | saveJournal _ _ => cases own

end

/--
An actor that goes on as if it had not been told of its breach completes its phase and the upgrade;
if it ends with an error of its own, the phase fails but may be retried.
-/
theorem History.not_stopped_by_hidden_breach :
    let breach (ends : Except ContractViolation Unit → Except Stop Unit) : View → Task Unit :=
      fun _ => Task.ofProgram
        (.produce (.draft "Fact" "facts" .null) fun result => .done (ends result))
    let ignore := breach fun _ => .ok ()
    let wrap := breach fun _ => .error (.unexpected ["no facts"])
    let run behave := ((Call.probing behave (.fresh .upgrade default) none).make
      (.single (.plain "apply" "upgrade")) MemoryStore.empty).1
    let supply : Supply := ⟨fun _ => .epoch, fun _ => default, default⟩
    let execution : Execution := .create default .upgrade "upgrade" default .epoch
    let bench : Workbench := ⟨⟨.builtin, []⟩, .empty, [], 0⟩
    let judge behave := (Phase.plain "apply" "upgrade").judge supply execution [.probe behave] bench
    (∀ behave ∈ [ignore, wrap], Visit.breaches supply execution "apply" (.probe behave) bench =
        [.undeclaredProduce "probe" "Fact"] ∧ (judge behave).terminal = false) ∧
      (judge ignore).status = .succeeded ∧ (run ignore).outcome? = some .completed ∧
      (judge wrap).status = .failed ∧ (run wrap).outcome? = some (.failed "apply" true) := by
  intro breach ignore wrap run supply execution bench judge
  refine ⟨List.forall_mem_cons.mpr ⟨⟨?_, ?_⟩, List.forall_mem_singleton.mpr ⟨?_, ?_⟩⟩,
    ?_, ?_, ?_, ?_⟩
  all_goals decide

end PhasedUpgrade
