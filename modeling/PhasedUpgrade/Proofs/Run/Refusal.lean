import PhasedUpgrade.Proofs.Dispatch.Cycle
import PhasedUpgrade.Proofs.Run.Compliance
import PhasedUpgrade.Store.Memory
import PhasedUpgrade.Store.Watched

/-!
# Runs that are kept out

A run that is refused, or that has a phase with a cycle ahead of it, has done nothing: it has only
read the store. All phases are planned before the first step is taken, and once a run has got past
that, it ends in other ways.
-/

namespace PhasedUpgrade

/-- Whether a run is refused or cannot be planned. -/
def RunError.KeepsOut (error : RunError) : Prop :=
  error.isRefusal = true ∨ ∃ cycle, error = .cycle cycle

/-- Whether the contents of a store are asked to change. -/
def StoreCall.isWrite : StoreCall → Bool
  | save _ | saveJournal _ _ => true
  | load _ | mostRecent _ | loadJournal _ => false

/-! ## Reading a store -/

namespace Watched

variable {σ α : Type} {first second third : Watched σ}

/-- Whether a watched store has got no calls but reads on the way from one state to another. -/
def OnlyRead (first second : Watched σ) : Prop :=
  ∃ reads, second.calls = first.calls ++ reads ∧ ∀ call ∈ reads, call.isWrite = false

theorem OnlyRead.refl (store : Watched σ) : store.OnlyRead store :=
  ⟨[], (List.append_nil _).symm, by simp⟩

theorem OnlyRead.trans (h₁ : first.OnlyRead second) (h₂ : second.OnlyRead third) :
    first.OnlyRead third := by
  obtain ⟨early, before, reads⟩ := h₁
  obtain ⟨late, after, reads'⟩ := h₂
  exact ⟨early ++ late, by rw [after, before, List.append_assoc],
    List.forall_mem_append.mpr ⟨reads, reads'⟩⟩

theorem onlyRead_answer {call : StoreCall} (reads : call.isWrite = false)
    (act : σ → StoreResult σ α) (store : Watched σ) :
    store.OnlyRead (answer call act store).2 := by
  refine ⟨[call], ?_, List.forall_mem_singleton.mpr reads⟩
  unfold answer
  by_cases fails : store.failsNext call <;> simp [fails]

end Watched

section

variable {σ : Type} [Store σ]

theorem Entry.onlyRead_sought (kind : ExecutionKind) (id : Option ExecutionId)
    (store : Watched σ) : store.OnlyRead (sought kind id store).2 := by
  cases id with
  | none =>
      have read : store.OnlyRead (Store.mostRecent kind store).2 :=
        Watched.onlyRead_answer rfl (Store.mostRecent kind) store
      rcases answer : Store.mostRecent kind store with ⟨_ | _ | execution, after⟩ <;>
        simpa [sought, answer] using read
  | some id =>
      have read : store.OnlyRead (Store.load id store).2 :=
        Watched.onlyRead_answer rfl (Store.load id) store
      rcases answer : Store.load id store with ⟨_ | _ | execution, after⟩ <;>
        simpa [sought, answer] using read

theorem Entry.onlyRead_resume (workflow : Workflow) (kind : ExecutionKind)
    (id : Option ExecutionId) (store : Watched σ) :
    store.OnlyRead (resume workflow kind id store).2 := by
  have read := onlyRead_sought kind id store
  unfold resume
  rcases answer : sought kind id store with ⟨error | execution, after⟩ <;> rw [answer] at read
  · exact read
  · cases placed : workflow.resumePlace execution with
    | error error => simpa [placed] using read
    | ok place =>
        have again : after.OnlyRead (Store.loadJournal execution.id after).2 :=
          Watched.onlyRead_answer rfl (Store.loadJournal execution.id) after
        rcases reading : Store.loadJournal execution.id after with ⟨error | journal, later⟩ <;>
          simpa [placed, reading] using read.trans again

theorem Setting.onlyRead_entry (setting : Setting) (supply : Supply) (request : RunRequest)
    (store : Watched σ) : store.OnlyRead (setting.entry supply request store).2 := by
  cases request with
  | fresh kind configuration => exact .refl store
  | resume kind id => exact Entry.onlyRead_resume setting.workflow kind id store

end

/-! ## Why a run is kept out -/

theorem Workflow.resumePlace_error {workflow : Workflow} {execution : Execution} {error : RunError}
    (h : workflow.resumePlace execution = .error error) :
    (∃ cause, error = .refused cause) ∨
      ∃ cause, error = .store cause ∧ workflow.placeAfter execution = .error cause := by
  unfold resumePlace at h
  by_cases named : execution.workflow = workflow.name
  · rw [if_neg (by simpa using named)] at h
    rcases Except.error_cases_of_bind h with failed | ⟨place, _, h⟩
    · obtain ⟨cause, placed, rfl⟩ := Except.exists_of_mapError_eq_error failed
      exact .inr ⟨cause, rfl, placed⟩
    · cases state : execution.state <;> simp only [state] at h
      case completed => exact .inl ⟨_, (Except.error.inj h).symm⟩
      case awaitingReboot => cases h
      all_goals
        rcases Except.error_cases_of_bind h with failed | ⟨_, _, h⟩
        · obtain ⟨cause, _, rfl⟩ := Except.exists_of_mapError_eq_error failed
          exact .inl ⟨cause, rfl⟩
        · cases h
  · rw [if_pos named] at h
    exact .inl ⟨_, (Except.error.inj h).symm⟩

section

variable {σ : Type} [Store σ] {store : σ} {error : RunError}

theorem Entry.sought_error {kind : ExecutionKind} {id : Option ExecutionId}
    (h : (sought kind id store).1 = .error error) :
    (∃ cause, error = .refused cause) ∨ ∃ cause, error = .store cause := by
  unfold sought at h
  cases id with
  | some id =>
      simp only at h
      rcases answer : Store.load id store with ⟨cause | _ | execution, after⟩ <;>
        rw [answer] at h <;> cases h
      · exact .inr ⟨cause, rfl⟩
      · exact .inl ⟨_, rfl⟩
  | none =>
      simp only at h
      rcases answer : Store.mostRecent kind store with ⟨cause | _ | execution, after⟩ <;>
        rw [answer] at h <;> cases h
      · exact .inr ⟨cause, rfl⟩
      · exact .inl ⟨_, rfl⟩

/-- Whoever is not let in is refused, or the store cannot tell or makes no sense. -/
theorem Setting.entry_error {setting : Setting} {supply : Supply} {request : RunRequest}
    (h : (setting.entry supply request store).1 = .error error) :
    (∃ cause, error = .refused cause) ∨ ∃ cause, error = .store cause := by
  unfold Setting.entry at h
  cases request with
  | fresh kind configuration => cases h
  | resume kind id =>
      simp only [Entry.resume] at h
      rcases answer : Entry.sought kind id store with ⟨cause | execution, after⟩ <;>
        rw [answer] at h
      · cases h
        exact Entry.sought_error (congrArg Prod.fst answer)
      · simp only at h
        cases placed : setting.workflow.resumePlace execution with
        | error cause =>
            rw [placed] at h
            cases h
            exact (Workflow.resumePlace_error placed).imp_right fun ⟨cause, same, _⟩ =>
              ⟨cause, same⟩
        | ok place =>
            rw [placed] at h
            rcases reading : Store.loadJournal execution.id after with ⟨cause | journal, later⟩ <;>
              rw [reading] at h <;> cases h
            exact .inr ⟨cause, rfl⟩

end

namespace Setting

variable {setting : Setting} {supply : Supply} {options : RunOptions} {answers : Answers}
  {entry : Entry} {stop : Nat}

/-- The phases that a run from an entry is to go through, if it is told to stop at a place. -/
def ahead (setting : Setting) (entry : Entry) (stop : Nat) : List Phase :=
  (setting.workflow.phases.take stop).drop entry.start

def planFor (setting : Setting) (options : RunOptions) (entry : Entry) (phase : Phase) :
    Except Cycle (List Actor) :=
  Dispatch.plan setting.registry phase setting.workflow.tag
    (options.filtersFor entry.execution.configuration)

/-- The first phase ahead that has a cycle is the one that is told. -/
theorem plan_eq_error_iff {cycle : Cycle} :
    setting.plan (options.filtersFor entry.execution.configuration) entry.start stop =
        .error cycle ↔
      ∃ before phase behind, setting.ahead entry stop = before ++ phase :: behind ∧
        (∀ earlier ∈ before, ∃ ordered, setting.planFor options entry earlier = .ok ordered) ∧
        setting.planFor options entry phase = .error cycle := by
  have same (phase : Phase) : (do
      return ⟨phase, ← setting.planFor options entry phase⟩ : Except Cycle PlannedPhase) =
        (setting.planFor options entry phase).map (PlannedPhase.mk phase) := by
    cases setting.planFor options entry phase <;> rfl
  unfold plan
  refine Except.mapM_eq_error_iff.trans ?_
  refine exists_congr fun before => exists_congr fun phase => exists_congr fun behind =>
    and_congr_right fun _ => and_congr (forall₂_congr fun earlier _ => ?_) ?_
  · refine (exists_congr fun value => (same earlier).congr_left).trans ?_
    cases setting.planFor options entry earlier <;> simp [Except.map]
  · refine (same phase).congr_left.trans ?_
    cases setting.planFor options entry phase <;> simp [Except.map]

theorem account_error {error : RunError}
    (h : setting.account supply options answers entry = .error error) :
    (∃ cause, error = .refused cause) ∨
      ∃ stop cycle, setting.workflow.stopPlace options.untilPhase = .ok stop ∧
        setting.plan (options.filtersFor entry.execution.configuration) entry.start stop =
          .error cycle ∧ error = .cycle cycle := by
  unfold account at h
  rcases Except.error_cases_of_bind h with failed | ⟨stop, stopped, h⟩
  · obtain ⟨cause, _, rfl⟩ := Except.exists_of_mapError_eq_error failed
    exact .inl ⟨cause, rfl⟩
  · rcases Except.error_cases_of_bind h with failed | ⟨plan, _, h⟩
    · obtain ⟨cycle, cyclic, rfl⟩ := Except.exists_of_mapError_eq_error failed
      exact .inr ⟨stop, cycle, Except.eq_ok_of_mapError stopped, cyclic, rfl⟩
    · cases h

theorem account_of_cycle {cycle : Cycle}
    (stopped : setting.workflow.stopPlace options.untilPhase = .ok stop)
    (cyclic : setting.plan (options.filtersFor entry.execution.configuration) entry.start stop =
      .error cycle) :
    setting.account supply options answers entry = .error (.cycle cycle) := by
  simp [account, stopped, cyclic, Except.mapError, bind, Except.bind]

theorem account_ended {account : Account RunResult} {error : RunError}
    (planned : setting.account supply options answers entry = .ok account)
    (h : account.ended = .error error) : ¬ error.KeepsOut := by
  obtain ⟨bench, isLastWanted, plan, rfl, logged, _⟩ := eq_account planned
  by_cases legal : entry.MayOpen
  · obtain ⟨value, ended⟩ := Course.account_ended_of_mayOpen supply logged isLastWanted legal
    rw [ended] at h
    cases h
  · obtain ⟨bindings, ended⟩ := Course.account_of_not_mayOpen supply logged isLastWanted legal
    rw [ended] at h
    cases h
    rintro (refused | ⟨cycle, same⟩)
    · cases refused
    · cases same

variable {σ : Type} [Store σ]

theorem perform_result {account : Account RunResult} {error : RunError}
    (planned : setting.account supply options answers entry = .ok account) {store : σ}
    (h : (account.perform store).result = .error error) : ¬ error.KeepsOut := by
  unfold Account.perform at h
  rcases performed : RunStep.performAll account.steps store with ⟨done, cause | ⟨⟨⟩⟩, last⟩ <;>
    simp only [performed] at h
  · cases h
    rintro (refused | ⟨cycle, same⟩)
    · cases refused
    · cases same
  · exact account_ended planned h

/-- A run ends before its first step, or is carried out as it has been planned. -/
theorem run_cases (setting : Setting) (supply : Supply) (request : RunRequest)
    (options : RunOptions) (answers : Answers) (store : σ) :
    (∃ error, setting.run supply request options answers store =
        ⟨.error error, [], (setting.entry supply request store).2⟩ ∧
      ((setting.entry supply request store).1 = .error error ∨
        ∃ entry, (setting.entry supply request store).1 = .ok entry ∧
          setting.account supply options answers entry = .error error)) ∨
    ∃ entry account, (setting.entry supply request store).1 = .ok entry ∧
      setting.account supply options answers entry = .ok account ∧
      setting.run supply request options answers store =
        account.perform (setting.entry supply request store).2 := by
  unfold run
  rcases setting.entry supply request store with ⟨error | entry, after⟩
  · exact .inl ⟨error, rfl, .inl rfl⟩
  · cases planned : setting.account supply options answers entry with
    | error error => exact .inl ⟨error, by simp [planned], .inr ⟨entry, rfl, planned⟩⟩
    | ok account => exact .inr ⟨entry, account, rfl, planned, by simp [planned]⟩

/-- A run tells of a cycle just if it is let in and one of the phases ahead has it. -/
theorem run_eq_cycle_iff {request : RunRequest} {store : σ} {cycle : Cycle} :
    (setting.run supply request options answers store).result = .error (.cycle cycle) ↔
      ∃ entry stop, (setting.entry supply request store).1 = .ok entry ∧
        setting.workflow.stopPlace options.untilPhase = .ok stop ∧
        setting.plan (options.filtersFor entry.execution.configuration) entry.start stop =
          .error cycle := by
  rcases setting.run_cases supply request options answers store with
    ⟨error, out, kept | ⟨entry, entered, kept⟩⟩ | ⟨entry, account, entered, planned, goes⟩
  · rw [out, kept]
    refine ⟨fun same => ?_, fun ⟨_, _, entered, _⟩ => nomatch entered⟩
    obtain rfl := Except.error.inj same
    rcases entry_error kept with ⟨_, refused⟩ | ⟨_, fault⟩
    · cases refused
    · cases fault
  · rw [out, entered]
    constructor
    · intro same
      obtain rfl := Except.error.inj same
      rcases account_error kept with ⟨_, refused⟩ | ⟨stop, _, stopped, cyclic, same⟩
      · cases refused
      · cases same
        exact ⟨entry, stop, rfl, stopped, cyclic⟩
    · rintro ⟨other, stop, same, stopped, cyclic⟩
      obtain rfl := Except.ok.inj same
      exact congrArg _ (Except.error.inj (kept.symm.trans (account_of_cycle stopped cyclic)))
  · rw [goes, entered]
    constructor
    · exact fun told => absurd (.inr ⟨cycle, rfl⟩) (perform_result planned told)
    · rintro ⟨other, stop, same, stopped, cyclic⟩
      obtain rfl := Except.ok.inj same
      cases planned.symm.trans (account_of_cycle stopped cyclic)

/--
A run that is refused or that finds a cycle has taken no step and has only read the store. A cycle
is found if there is one in any of the phases ahead of a run that is let in, and it is the one of
the first such phase that is told.
-/
theorem run_of_keepsOut (setting : Setting) (supply : Supply) (request : RunRequest)
    (options : RunOptions) (answers : Answers) (store : Watched σ) :
    let run := setting.run supply request options answers store
    (∀ error, run.result = .error error → error.KeepsOut →
      run.steps = [] ∧ run.visits = [] ∧ run.bindings = [] ∧ run.answers answers = answers ∧
        store.OnlyRead run.store) ∧
    (∀ cycle, run.result = .error (.cycle cycle) ↔
      ∃ entry stop before phase behind, (setting.entry supply request store).1 = .ok entry ∧
        setting.workflow.stopPlace options.untilPhase = .ok stop ∧
        setting.ahead entry stop = before ++ phase :: behind ∧
        (∀ earlier ∈ before, ∃ ordered, setting.planFor options entry earlier = .ok ordered) ∧
        setting.planFor options entry phase = .error cycle) ∧
    ∀ entry stop, (setting.entry supply request store).1 = .ok entry →
      setting.workflow.stopPlace options.untilPhase = .ok stop →
      ∀ phase ∈ setting.ahead entry stop, ∀ cycle,
        setting.planFor options entry phase = .error cycle →
        ∃ told, run.result = .error (.cycle told) := by
  intro run
  refine ⟨fun error failed keeps => ?_, fun cycle => ?_, ?_⟩
  · rcases setting.run_cases supply request options answers store with
      ⟨_, out, _⟩ | ⟨entry, account, _, planned, goes⟩
    · have out : run = _ := out
      have read := setting.onlyRead_entry supply request store
      rw [out]
      exact ⟨rfl, rfl, rfl, rfl, read⟩
    · have goes : run = _ := goes
      rw [goes] at failed
      exact absurd keeps (perform_result planned failed)
  · refine run_eq_cycle_iff.trans ?_
    simp only [plan_eq_error_iff, exists_and_left]
  · intro entry stop entered stopped phase among cycle cyclic
    cases planned : setting.plan (options.filtersFor entry.execution.configuration) entry.start
        stop with
    | error told => exact ⟨told, run_eq_cycle_iff.mpr ⟨entry, stop, entered, stopped, planned⟩⟩
    | ok plan =>
        obtain ⟨_, here⟩ := Except.exists_mapM_eq_ok_iff.mp ⟨plan, planned⟩ phase among
        obtain ⟨ordered, chosen, _⟩ := Except.exists_of_bind_eq_ok here
        cases cyclic.symm.trans chosen

/-- A cycle in the last phase keeps a run from its first one. -/
theorem run_of_keepsOut_by_last_phase :
    let idle : View → Task Unit := fun _ => pure ()
    let left : Actor := { Actor.tagged "left" ["reply"] ["request"] idle with
      tags := .ofList ["upgrade", "finish"] }
    let right : Actor := { Actor.tagged "right" ["request"] ["reply"] idle with
      tags := .ofList ["upgrade", "finish"] }
    let workflow : Workflow := ⟨"upgrade", "upgrade",
      [.plain "prepare" "prepare", .plain "finish" "finish"], List.cons_ne_nil _ _, by decide⟩
    let setting : Setting := ⟨workflow, ⟨.builtin, [left, right], by decide⟩⟩
    let supply : Supply := ⟨fun _ => .epoch, fun _ => default, default⟩
    let store : Watched MemoryStore := ⟨.empty, [], none⟩
    let run := setting.run supply (.fresh .upgrade default) .none .empty store
    (∃ cycle, run.result = .error (.cycle cycle)) ∧ run.steps = [] ∧
      ∀ call ∈ run.store.calls, call.isWrite = false := by
  intro idle left right workflow setting supply store run
  obtain ⟨kept, _, found⟩ :=
    setting.run_of_keepsOut supply (.fresh .upgrade default) .none .empty store
  let entry : Entry := .fresh workflow default .upgrade default .epoch
  have cyclic : Dispatch.planWith .exhaustive setting.registry (.plain "finish" "finish") "upgrade"
      (RunOptions.none.filtersFor default) = .error _ :=
    Dispatch.planWith_eq_error_iff.mpr ⟨by decide, rfl⟩
  obtain ⟨told, failed⟩ := found entry 2 rfl rfl (.plain "finish" "finish")
    (by simp [ahead, setting, workflow, entry, Entry.fresh]) _ cyclic
  obtain ⟨none, _, _, _, reads, calls, read⟩ := kept _ failed (.inr ⟨told, rfl⟩)
  refine ⟨⟨told, failed⟩, none, fun call mem => read call ?_⟩
  rw [calls] at mem
  exact mem

end Setting

end PhasedUpgrade
