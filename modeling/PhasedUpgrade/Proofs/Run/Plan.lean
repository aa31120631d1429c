import PhasedUpgrade.Proofs.Run.Soundness

/-!
# Plans of runs

A run that may go on has a plan for the phases from the place of its entry up to the place where it
is to stop. The plan is gone through from the front, so what is left of it is the plan of a run that
enters one place later.
-/

namespace PhasedUpgrade

namespace Setting

variable {setting : Setting} {filters : Filters} {place stop : Nat}

theorem le_of_plan_nil (h : setting.plan filters place stop = .ok [])
    (inside : stop ≤ setting.workflow.phases.length) : stop ≤ place := by
  have none := congrArg List.length (map_phase_plan h)
  rw [List.map_nil, List.length_nil, List.length_drop, List.length_take] at none
  omega

theorem plan_cons {planned : PlannedPhase} {rest : List PlannedPhase}
    (h : setting.plan filters place stop = .ok (planned :: rest)) :
    place < stop ∧ setting.workflow.phases[place]? = some planned.phase ∧
      Dispatch.plan setting.registry planned.phase setting.workflow.tag filters =
        .ok planned.actors ∧
      setting.plan filters (place + 1) stop = .ok rest := by
  obtain ⟨phase, others, first, later, split⟩ :=
    List.forall₂_cons_right_iff.mp (Except.mapM_eq_ok_iff.mp h)
  obtain ⟨actors, chosen, same⟩ := Except.exists_of_bind_eq_ok first
  cases same
  have head := congrArg (fun list => list[0]?) split
  have tail := congrArg (List.drop 1) split
  simp only [List.getElem?_drop, Nat.add_zero, List.getElem?_cons_zero, List.getElem?_take] at head
  rw [List.drop_drop, List.drop_succ_cons, List.drop_zero] at tail
  by_cases before : place < stop
  · rw [if_pos before] at head
    refine ⟨before, head, chosen, Except.mapM_eq_ok_iff.mpr ?_⟩
    rw [tail]
    exact later
  · rw [if_neg before] at head
    cases head

end Setting

namespace Workflow

variable {workflow : Workflow} {stop : Nat}

/-- The phase that ends a run is the one before the place to stop at, unless it is the last one. -/
def StopsAt (workflow : Workflow) (stop : Nat) (isLastWanted : Phase → Bool) : Prop :=
  ∀ place phase, workflow.phases[place]? = some phase →
    (isLastWanted phase = true ↔ place + 1 = stop ∧ stop < workflow.phases.length)

/--
Whether a run that is to stop at a place stops there behind a phase, before the workflow's end.
-/
def isLastWanted (workflow : Workflow) (untilPhase : Option String) (stop : Nat) (phase : Phase) :
    Bool :=
  untilPhase = some phase.name && stop < workflow.phases.length

theorem phase_of_position? {name : String} {place : Nat}
    (h : workflow.position? name = some place) :
    ∃ phase, workflow.phases[place]? = some phase ∧ phase.name = name := by
  unfold position? at h
  obtain ⟨inside, named, _⟩ := List.findIdx?_eq_some_iff_getElem.mp h
  exact ⟨_, List.getElem?_eq_getElem inside, by simpa using named⟩

theorem stopPlace_spec {untilPhase : Option String} (h : workflow.stopPlace untilPhase = .ok stop) :
    stop ≤ workflow.phases.length ∧
      workflow.StopsAt stop (workflow.isLastWanted untilPhase stop) := by
  unfold stopPlace at h
  cases untilPhase with
  | none =>
      obtain rfl := Except.ok.inj h
      exact ⟨Nat.le_refl _, fun place phase _ => by simp [isLastWanted]⟩
  | some name =>
      simp only at h
      cases placed : workflow.position? name with
      | none =>
          rw [placed] at h
          cases h
      | some last =>
          rw [placed] at h
          obtain rfl := Except.ok.inj h
          obtain ⟨wanted, there, named⟩ := phase_of_position? placed
          refine ⟨(List.getElem?_eq_some_iff.mp there).1, fun place phase found => ?_⟩
          simp only [isLastWanted, Bool.and_eq_true, decide_eq_true_eq, Option.some.injEq,
            Nat.add_right_cancel_iff]
          refine and_congr_left fun _ => ⟨fun same => ?_, fun same => ?_⟩
          · exact place_unique found there (same.symm.trans named.symm)
          · subst same
            rw [← named, Option.some.inj (there.symm.trans found)]

end Workflow

def Entry.bench (entry : Entry) (catalog : Catalog) (answers : Answers) : Workbench :=
  ⟨⟨catalog, entry.journal.messages⟩, answers, entry.journal.audit, 0⟩

theorem Entry.log_bench (entry : Entry) (catalog : Catalog) (answers : Answers) :
    (entry.bench catalog answers).bus.log = entry.journal.messages :=
  rfl

theorem Setting.exists_plan {setting : Setting} {supply : Supply} {options : RunOptions}
    {answers : Answers} {entry : Entry} {account : Account RunResult}
    (h : setting.account supply options answers entry = .ok account) :
    ∃ stop plan, setting.workflow.stopPlace options.untilPhase = .ok stop ∧
      setting.plan (options.filtersFor entry.execution.configuration) entry.start stop = .ok plan ∧
      account = Course.account supply entry (entry.bench setting.registry.catalog answers)
        (setting.workflow.isLastWanted options.untilPhase stop) plan := by
  unfold Setting.account at h
  obtain ⟨stop, stopped, h⟩ := Except.exists_of_bind_eq_ok h
  obtain ⟨plan, planned, h⟩ := Except.exists_of_bind_eq_ok h
  exact ⟨stop, plan, Except.eq_ok_of_mapError stopped, Except.eq_ok_of_mapError planned,
    (Except.ok.inj h).symm⟩

theorem Setting.account_of_plan {setting : Setting} {options : RunOptions} {entry : Entry}
    {stop : Nat} {plan : List PlannedPhase}
    (stopped : setting.workflow.stopPlace options.untilPhase = .ok stop)
    (planned : setting.plan (options.filtersFor entry.execution.configuration) entry.start stop =
      .ok plan) (supply : Supply) (answers : Answers) :
    setting.account supply options answers entry =
      .ok (Course.account supply entry (entry.bench setting.registry.catalog answers)
        (setting.workflow.isLastWanted options.untilPhase stop) plan) := by
  simp [Setting.account, stopped, planned, Except.mapError, bind, Except.bind]
  rfl

end PhasedUpgrade
