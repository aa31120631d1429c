import PhasedUpgrade.Proofs.Run.Records
import PhasedUpgrade.Proofs.Run.Stopped

/-!
# Final records

A stored record is final if it is completed, if it is marked as stopped for good, or if the phase
that comes next may not be retried and no reboot has been asked for. Just the final records are
refused to whoever wants to take them up, and they stay as they are from then on.
-/

namespace PhasedUpgrade

open LawfulStore (holdings)

/-- Whether the execution of a record is over, or has to stop before a phase that is not retried. -/
def Execution.IsFinal (workflow : Workflow) (execution : Execution) : Prop :=
  execution.state = .completed ∨ execution.fatalStop = true ∨
    execution.state ≠ .awaitingReboot ∧ ∃ place phase, workflow.placeAfter execution = .ok place ∧
      workflow.phases[place]? = some phase ∧ phase.retryPolicy = .disabled

theorem Execution.isFinal_iff_of_failed {workflow : Workflow} {record : Execution} {place : Nat}
    {phase : Phase} (state : record.state = .failed)
    (placed : workflow.placeAfter record = .ok place)
    (found : workflow.phases[place]? = some phase) :
    record.IsFinal workflow ↔ record.fatalStop = true ∨ phase.retryPolicy = .disabled := by
  constructor
  · rintro (completed | fatal | ⟨_, other, next, there, here, disabled⟩)
    · cases state.symm.trans completed
    · exact .inl fatal
    · obtain rfl := Except.ok.inj (placed.symm.trans there)
      obtain rfl := Option.some.inj (found.symm.trans here)
      exact .inr disabled
  · rintro (fatal | disabled)
    · exact .inr (.inl fatal)
    · exact .inr (.inr ⟨by simp [state], place, phase, placed, found, disabled⟩)

namespace Workflow

variable {workflow : Workflow} {execution : Execution} {place : Nat}

theorem checkRetry_eq_ok_iff : workflow.checkRetry execution place = .ok () ↔
    execution.fatalStop = false ∧
      ∀ phase, workflow.phases[place]? = some phase → phase.retryPolicy ≠ .disabled := by
  unfold checkRetry
  cases execution.fatalStop with
  | true => simp
  | false =>
      cases workflow.phases[place]? with
      | none => simp
      | some phase => by_cases disabled : phase.retryPolicy = .disabled <;> simp [disabled]

theorem resumePlace_eq_ok_iff (wellFormed : execution.WellFormed workflow)
    (own : execution.workflow = workflow.name)
    (placed : workflow.placeAfter execution = .ok place) :
    workflow.resumePlace execution = .ok place ↔ ¬ execution.IsFinal workflow := by
  constructor
  · intro goesOn final
    rcases (resumePlace_spec goesOn).2.2 with waits | ⟨running, checked⟩
    · rcases final with completed | fatal | ⟨other, _⟩
      · cases waits.symm.trans completed
      · cases waits.symm.trans (wellFormed.failed_of_fatalStop fatal)
      · exact other waits
    · obtain ⟨mild, retried⟩ := checkRetry_eq_ok_iff.mp checked
      rcases final with completed | fatal | ⟨_, other, phase, there, found, disabled⟩
      · exact running completed
      · cases mild.symm.trans fatal
      · obtain rfl := Except.ok.inj (placed.symm.trans there)
        exact retried phase found disabled
  · intro goesOn
    have running : execution.state ≠ .completed := fun completed => goesOn (.inl completed)
    have checked : execution.state ≠ .awaitingReboot →
        workflow.checkRetry execution place = .ok () := by
      intro other
      refine checkRetry_eq_ok_iff.mpr ⟨?_, fun phase found disabled => ?_⟩
      · simpa using fun fatal => goesOn (.inr (.inl fatal))
      · exact goesOn (.inr (.inr ⟨other, place, phase, placed, found, disabled⟩))
    unfold resumePlace
    simp only [own, placed, ne_eq, not_true_eq_false, if_false]
    cases state : execution.state with
    | completed => exact absurd state running
    | awaitingReboot => rfl
    | notStarted | running | resumed | failed =>
        show ((workflow.checkRetry execution place).mapError RunError.refused >>= fun _ =>
          pure place) = .ok place
        rw [checked (by simp [state])]
        rfl

theorem refused_iff_isFinal (wellFormed : execution.WellFormed workflow)
    (own : execution.workflow = workflow.name)
    (placed : workflow.placeAfter execution = .ok place) :
    (∃ cause, workflow.resumePlace execution = .error (.refused cause)) ↔
      execution.IsFinal workflow := by
  have known := resumePlace_eq_ok_iff wellFormed own placed
  constructor
  · rintro ⟨cause, refused⟩
    by_contra goesOn
    cases refused.symm.trans (known.mpr goesOn)
  · intro final
    cases found : workflow.resumePlace execution with
    | ok other =>
        obtain rfl := Except.ok.inj ((resumePlace_spec found).2.1.symm.trans placed)
        exact absurd final (known.mp found)
    | error error =>
        rcases resumePlace_error found with ⟨cause, rfl⟩ | ⟨cause, _, lost⟩
        · exact ⟨cause, rfl⟩
        · cases placed.symm.trans lost

end Workflow

namespace History

variable {workflow : Workflow} {σ : Type} [LawfulStore σ] {episodes : List Episode} {store : σ}
  {id : ExecutionId} {record : Execution}

/-- What is stored can be taken up at the place behind its last phase, unless it is final. -/
theorem resumePlace_of_stored (history : History workflow episodes store)
    (stored : (holdings store).execution? id = some record) :
    ∃ place, workflow.placeAfter record = .ok place ∧
      (workflow.resumePlace record = .ok place ↔ ¬ record.IsFinal workflow) ∧
      ((∃ cause, workflow.resumePlace record = .error (.refused cause)) ↔
        record.IsFinal workflow) := by
  rw [history.holdings_eq] at stored
  have sound := history.runs.sound id
  have wellFormed := history.runs.wellFormed record (history.runs.mem_of_stored stored)
  have own := (sound.underway record stored).workflow_eq
  have placed := sound.placeAfter_eq stored
  exact ⟨_, placed, Workflow.resumePlace_eq_ok_iff wellFormed own placed,
    Workflow.refused_iff_isFinal wellFormed own placed⟩

/--
Once a final record is stored and the call that wrote it is over, no actor acts for the execution
and nothing is written of it any more, whatever calls follow; so its record and its journal stay as
they are. Whoever asks to take it up is refused.
-/
theorem final_for_good (first : History workflow episodes store)
    (stored : (holdings store).execution? id = some record) (final : record.IsFinal workflow)
    {later : List Episode} {after : σ} (history : History workflow (episodes ++ later) after) :
    (∀ step ∈ Episode.allSteps later, ¬ step.concerns id) ∧
    (holdings after).execution? id = some record ∧
    (holdings after).journal id = (holdings store).journal id ∧
    ∀ (call : Call) (kind : ExecutionKind) (name : Option ExecutionId) (execution : Execution)
      (next : σ), call.request = .resume kind name →
        Entry.sought kind name after = (.ok execution, next) → execution.id = id →
        ∃ cause, call.make workflow after = (⟨call, [], some (.error (.refused cause))⟩, next) := by
  obtain ⟨_, _, _, refused⟩ := first.resumePlace_of_stored stored
  obtain ⟨cause, barred⟩ := refused.mpr final
  have apart := first.not_concerns_of_barred history stored barred
  obtain ⟨same, journal⟩ := first.holdings_of_not_concerns history apart
  have kept := same.trans stored
  refine ⟨apart, kept, journal, ?_⟩
  rintro call kind name execution next request sought rfl
  exact ⟨cause, history.make_of_stored request sought kept barred⟩

/-- A run is cut off in a phase that may not be retried; nobody can take it up after that. -/
theorem final_for_good_of_cut_off :
    let idle : View → Task Unit := fun _ => pure ()
    let workflow := Workflow.single { Phase.plain "apply" "upgrade" with retryPolicy := .disabled }
    let first := (Call.probing idle (.fresh .upgrade default) (some 2)).make workflow
      MemoryStore.empty
    let second := (Call.probing idle (.resume .upgrade none) none).make workflow first.2
    ((holdings first.2).execution? default).map (fun execution =>
        (execution.state, execution.lastCompletedPhase)) = some (.running, none) ∧
      second.1.result = some (.error (.refused (.notRetryable "apply"))) ∧
      ∃ record, record.IsFinal workflow ∧ (holdings first.2).execution? default = some record ∧
        (holdings second.2).execution? default = some record ∧
        (holdings second.2).journal default = (holdings first.2).journal default := by
  intro idle workflow first second
  have record : ((holdings first.2).execution? default).map (fun execution =>
      (execution.state, execution.lastCompletedPhase)) = some (.running, none) := by
    decide +revert
  have refused : second.1.result = some (.error (.refused (.notRetryable "apply"))) := by
    decide +revert
  have begun : History workflow [first.1] first.2 :=
    (History.empty rfl).call _ (Call.namesNew_empty _)
  have again : History workflow ([first.1] ++ [second.1]) second.2 :=
    begun.call _ (Call.namesNew_of_resume rfl first.2)
  obtain ⟨execution, stored, marks⟩ := Option.map_eq_some_iff.mp record
  obtain ⟨state, last⟩ := Prod.mk.inj marks
  have place : workflow.placeAfter execution = .ok 0 := by
    unfold Workflow.placeAfter
    rw [last]
  have final : execution.IsFinal workflow :=
    .inr (.inr ⟨by simp [state], 0, _, place, rfl, rfl⟩)
  obtain ⟨_, kept, journal, _⟩ := begun.final_for_good stored final again
  exact ⟨record, refused, execution, final, stored, kept, journal⟩

end History

end PhasedUpgrade
