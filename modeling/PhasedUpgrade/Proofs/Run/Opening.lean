import PhasedUpgrade.Proofs.Run.Advance
import PhasedUpgrade.Proofs.Run.Refusal

/-!
# Changes of state in runs

A run changes the state of its execution many times, but only the first change can be refused. It is
refused to a resumed run exactly if the record says that the execution has been resumed already,
which it does when an earlier run was cut off in its first phase.
-/

namespace PhasedUpgrade

open LawfulStore (holdings)

namespace RunError

def IsIllegal (error : RunError) : Prop :=
  ∃ cause, error = .transition cause

end RunError

/-! ## Where no change is refused -/

section

variable {error : RunError} {setting : Setting} {supply : Supply}

/-- Refusing to let a run in has nothing to do with changes of state. -/
theorem Setting.entry_not_illegal {σ : Type} [Store σ] {store : σ} {request : RunRequest}
    (h : (setting.entry supply request store).1 = .error error) : ¬ error.IsIllegal := by
  rcases Setting.entry_error h with ⟨cause, rfl⟩ | ⟨cause, rfl⟩ <;> exact nofun

theorem Setting.account_not_illegal {options : RunOptions} {answers : Answers} {entry : Entry}
    (h : setting.account supply options answers entry = .error error) : ¬ error.IsIllegal := by
  rcases Setting.account_error h with ⟨cause, rfl⟩ | ⟨_, cycle, _, _, rfl⟩ <;> exact nofun

end

/-! ## What comes of a call -/

section

variable {σ : Type} [Store σ]

theorem RunStep.performAll_setting (bindings : List (String × String)) (store : σ) :
    performAll (Course.setting bindings) store = (Course.setting bindings, .ok (), store) := by
  induction bindings with
  | nil => rfl
  | cons first rest ih =>
      have one : (RunStep.setVariable first.1 first.2).perform store = (.ok (), store) := rfl
      show performAll (.setVariable first.1 first.2 :: Course.setting rest) store = _
      rw [performAll, one]
      simp only
      rw [ih]
      rfl

theorem RunStep.length_lt_of_error {steps done : List RunStep} {store after : σ}
    {error : StoreError} (h : performAll steps store = (done, .error error, after)) :
    done.length < steps.length := by
  induction steps generalizing done store with
  | nil => cases h
  | cons step rest ih =>
      unfold performAll at h
      rcases first : step.perform store with ⟨cause | ⟨⟨⟩⟩, next⟩
      · rw [first] at h
        cases h
        exact Nat.zero_lt_succ rest.length
      · rw [first] at h
        rcases others : performAll rest next with ⟨made, result, last⟩
        simp only [others] at h
        cases h
        exact Nat.succ_lt_succ (ih others)

namespace Call

variable {account : Account RunResult}

theorem carryOut_setting (call : Call) {bindings : List (String × String)} {error : RunError}
    (h : account = ⟨Course.setting bindings, .error error⟩) (store : σ) :
    (call.carryOut account store).1.result =
        (if call.survives account.steps then some (.error error) else none) ∧
      (call.carryOut account store).2 = store := by
  subst h
  obtain ⟨bound, _, part⟩ := List.prefix_map_iff.mp (call.living_prefix (Course.setting bindings))
  have part : call.living (Course.setting bindings) = Course.setting bound := part
  unfold carryOut
  simp only
  rw [part, RunStep.performAll_setting]
  exact ⟨rfl, rfl⟩

/-- An account is carried out to its end, or its process dies on the way, or a write fails. -/
theorem carryOut_cases (call : Call) (account : Account RunResult) (store : σ) :
    (call.survives account.steps = true ∧
      (call.carryOut account store).1.result = some account.ended ∧
      (call.carryOut account store).1.steps = account.steps) ∨
    (call.survives account.steps = false ∧ (call.carryOut account store).1.result = none) ∨
    ∃ cause, (call.carryOut account store).1.result = some (.error (.store cause)) ∧
      (call.carryOut account store).1.steps ≠ account.steps := by
  have all := (RunStep.performAll_prefix (call.living account.steps) store).2
  have short := (call.living_prefix account.steps).length_le
  unfold carryOut
  rcases performed : RunStep.performAll (call.living account.steps) store with
    ⟨done, cause | ⟨⟨⟩⟩, after⟩
  · refine .inr (.inr ⟨cause, rfl, fun whole => ?_⟩)
    have shorter := RunStep.length_lt_of_error performed
    rw [show done = account.steps from whole] at shorter
    omega
  · rw [performed] at all
    cases survives : call.survives account.steps with
    | true =>
        rw [living_of_survives survives] at all
        exact .inl ⟨rfl, rfl, all rfl⟩
    | false => exact .inr (.inl ⟨rfl, rfl⟩)

theorem carryOut_ok (call : Call) {value : RunResult} (h : account.ended = .ok value) (store : σ) :
    (∀ error, (call.carryOut account store).1.result = some (.error error) → ¬ error.IsIllegal) ∧
      (call.survives account.steps = true → (call.carryOut account store).1.steps = account.steps →
        (call.carryOut account store).1.result = some (.ok value)) := by
  rcases call.carryOut_cases account store with
    ⟨_, result, _⟩ | ⟨dies, result⟩ | ⟨cause, result, partly⟩ <;> rw [result]
  · rw [h]
    exact ⟨nofun, fun _ _ => rfl⟩
  · rw [dies]
    exact ⟨nofun, nofun⟩
  · refine ⟨fun error same => ?_, fun _ whole => absurd whole partly⟩
    obtain rfl := Except.error.inj (Option.some.inj same)
    exact nofun

theorem make_cases (call : Call) (workflow : Workflow) (store : σ) :
    (∃ error, (call.make workflow store).1.result = some (.error error) ∧ ¬ error.IsIllegal ∧
      ∀ entry account,
        ((call.setting workflow).entry call.supply call.request store).1 = .ok entry →
        (call.setting workflow).account call.supply call.options call.answers entry ≠ .ok account) ∨
    ∃ entry account after,
      (call.setting workflow).entry call.supply call.request store = (.ok entry, after) ∧
      (call.setting workflow).account call.supply call.options call.answers entry = .ok account ∧
      call.make workflow store = call.carryOut account after := by
  rcases call.make_eq workflow store with ⟨error, out, cause⟩ | carried
  · refine .inl ⟨error, by rw [out], ?_⟩
    rcases cause with failed | ⟨entry, entered, failed⟩
    · exact ⟨Setting.entry_not_illegal failed, fun other _ same => nomatch failed.symm.trans same⟩
    · refine ⟨Setting.account_not_illegal failed, fun other account same planned => ?_⟩
      obtain rfl := Except.ok.inj (entered.symm.trans same)
      cases failed.symm.trans planned
  · exact .inr carried

end Call

end

/-! ## Which runs may be opened -/

section

variable {workflow : Workflow} {log : List RunStep} {entry : Entry}

/-- Of the runs that are let in, all may be opened but those of executions recorded as resumed. -/
theorem Enters.mayOpen_iff (enters : Enters workflow log entry)
    (sound : (Chronicle.ofSteps entry.execution.id log).Sound workflow) :
    entry.MayOpen ↔ entry.execution.state ≠ .resumed := by
  unfold Entry.MayOpen Entry.target
  cases enters with
  | fresh _ _ _ _ => simp [Entry.fresh, Execution.create, ExecutionState.successors]
  | @resumed execution place stored placed =>
      have started := (sound.underway execution stored).started
      have goesOn := Workflow.not_completed_of_resumePlace placed
      cases state : execution.state <;> simp_all [ExecutionState.successors]

theorem Enters.resumes_of_resumed (enters : Enters workflow log entry)
    (state : entry.execution.state = .resumed) : entry.resumes = true := by
  cases enters with
  | fresh _ _ _ _ => cases state
  | resumed _ _ => rfl

end

/--
Whether a call is let in and planned for an execution that is recorded as resumed, and its process
lives to see it refused.
-/
def Call.FindsResumed {σ : Type} [Store σ] (call : Call) (workflow : Workflow) (store : σ) : Prop :=
  ∃ entry account,
    ((call.setting workflow).entry call.supply call.request store).1 = .ok entry ∧
    (call.setting workflow).account call.supply call.options call.answers entry = .ok account ∧
    entry.execution.state = .resumed ∧ call.survives account.steps = true

section

variable {workflow : Workflow} {σ : Type} [LawfulStore σ] {episodes : List Episode}
  {store after : σ} {call : Call} {entry : Entry} {account : Account RunResult}

/-- What comes of a call that is let in and planned, by the recorded state of its execution. -/
theorem Call.result_of_planned (history : History workflow episodes store)
    (new : call.NamesNew store)
    (entered : (call.setting workflow).entry call.supply call.request store = (.ok entry, after))
    (planned : (call.setting workflow).account call.supply call.options call.answers entry =
      .ok account) :
    (entry.execution.state = .resumed →
      (call.carryOut account after).1.result =
        if call.survives account.steps then some (.error (.transition ⟨"resumed", "resumed"⟩))
        else none) ∧
    (entry.execution.state ≠ .resumed →
      (∀ error, (call.carryOut account after).1.result = some (.error error) → ¬ error.IsIllegal) ∧
      (call.survives account.steps = true → (call.carryOut account after).1.steps = account.steps →
        ∃ value, (call.carryOut account after).1.result = some (.ok value))) := by
  have held := history.holdings_eq
  have enters := (Setting.entry_spec workflow held new).2 entry (congrArg Prod.fst entered)
  have opens := enters.mayOpen_iff (history.runs.sound entry.execution.id)
  obtain ⟨bench, isLastWanted, plan, same, logged, _⟩ := Setting.eq_account planned
  constructor
  · intro state
    have illegal : ¬ entry.MayOpen := fun legal => opens.mp legal state
    obtain ⟨bindings, refused⟩ :=
      Course.account_of_not_mayOpen call.supply logged isLastWanted illegal
    rw [← same, state, Entry.target, enters.resumes_of_resumed state] at refused
    exact (call.carryOut_setting refused after).1
  · intro state
    obtain ⟨value, ended⟩ :=
      Course.account_ended_of_mayOpen call.supply logged isLastWanted (opens.mpr state)
    rw [← same] at ended
    obtain ⟨never, whole⟩ := call.carryOut_ok ended after
    exact ⟨never, fun survives all => ⟨value, whole survives all⟩⟩

/--
After any history a call ends with an illegal change of state exactly if it finds its execution
recorded as resumed. Any other call that is let in and planned ends well if all its writes succeed.
-/
theorem History.illegal_iff_findsResumed (history : History workflow episodes store)
    (new : call.NamesNew store) :
    ((∃ cause, (call.make workflow store).1.result = some (.error (.transition cause))) ↔
      call.FindsResumed workflow store) ∧
    ∀ entry account,
      ((call.setting workflow).entry call.supply call.request store).1 = .ok entry →
      (call.setting workflow).account call.supply call.options call.answers entry = .ok account →
      entry.execution.state ≠ .resumed → call.survives account.steps = true →
      (call.make workflow store).1.steps = account.steps →
      ∃ value, (call.make workflow store).1.result = some (.ok value) := by
  rcases call.make_cases workflow store with
    ⟨error, result, legal, kept⟩ | ⟨entry, account, after, entered, planned, made⟩
  · refine ⟨⟨?_, ?_⟩, ?_⟩
    · rintro ⟨cause, ended⟩
      rw [result] at ended
      exact absurd ⟨cause, Except.error.inj (Option.some.inj ended)⟩ legal
    · rintro ⟨entry, account, entered, planned, _⟩
      exact absurd planned (kept entry account entered)
    · intro entry account entered planned
      exact absurd planned (kept entry account entered)
  · obtain ⟨refused, welcome⟩ := Call.result_of_planned history new entered planned
    rw [made]
    unfold Call.FindsResumed
    rw [entered]
    refine ⟨⟨?_, ?_⟩, ?_⟩
    · rintro ⟨cause, ended⟩
      by_cases state : entry.execution.state = .resumed
      · have answer := refused state
        by_cases survives : call.survives account.steps = true
        · exact ⟨entry, account, rfl, planned, state, survives⟩
        · rw [answer, if_neg survives] at ended
          cases ended
      · exact absurd ⟨cause, rfl⟩ ((welcome state).1 _ ended)
    · rintro ⟨other, account', same, planned', state, survives⟩
      obtain rfl := Except.ok.inj same
      obtain rfl := Except.ok.inj (planned.symm.trans planned')
      exact ⟨_, (refused state).trans (if_pos survives)⟩
    · intro other account' same planned' state survives all
      obtain rfl := Except.ok.inj same
      obtain rfl := Except.ok.inj (planned.symm.trans planned')
      exact (welcome state).2 survives all

/--
A run that is cut off behind the first record of its resumption leaves one that is accepted when the
next run is let in, and then refused.
-/
theorem History.resumed_twice_illegal :
    let phase := Phase.plain "apply" "upgrade"
    let idle : View → Task Unit := fun _ => pure ()
    let first := (Call.probing idle (.fresh .upgrade default) (some 1)).make (.single phase)
      MemoryStore.empty
    let second := (Call.probing idle (.resume .upgrade none) (some 1)).make (.single phase) first.2
    let third := (Call.probing idle (.resume .upgrade none) none).make (.single phase) second.2
    History (.single phase) [first.1, second.1, third.1] third.2 ∧
      third.1.result = some (.error (.transition ⟨"resumed", "resumed"⟩)) := by
  intro phase idle first second third
  have ended : third.1.result = some (.error (.transition ⟨"resumed", "resumed"⟩)) := by
    decide +revert
  have begun : History (.single phase) [first.1] first.2 :=
    (History.empty rfl).call _ (Call.namesNew_empty _)
  have resumed : History (.single phase) [first.1, second.1] second.2 :=
    begun.call _ (Call.namesNew_of_resume rfl first.2)
  exact ⟨resumed.call _ (Call.namesNew_of_resume rfl second.2), ended⟩

/-- After a run that was cut off only once, the next one does not find its execution resumed. -/
theorem History.legal_of_cut_off :
    let phase := Phase.plain "apply" "upgrade"
    let idle : View → Task Unit := fun _ => pure ()
    let first := (Call.probing idle (.fresh .upgrade default) (some 1)).make (.single phase)
      MemoryStore.empty
    ¬ (Call.probing idle (.resume .upgrade none) none).FindsResumed (.single phase) first.2 := by
  intro phase idle first
  have ended : (((Call.probing idle (.resume .upgrade none) none).make (.single phase)
      first.2).1.result.bind Except.toOption).isSome = true := by decide +revert
  intro found
  have begun : History (.single phase) [first.1] first.2 :=
    (History.empty rfl).call _ (Call.namesNew_empty _)
  clear_value first
  obtain ⟨cause, refused⟩ :=
    (begun.illegal_iff_findsResumed (Call.namesNew_of_resume rfl first.2)).1.mpr found
  rw [refused] at ended
  cases ended

end

end PhasedUpgrade
