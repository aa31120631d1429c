import PhasedUpgrade.Proofs.Run.Opening
import PhasedUpgrade.Proofs.Run.Passage

/-!
# The environment of a resumed run

A run that takes an execution up again sets what has been captured of its environment, with the
names that were given up replaced. Its actors are shown what has been captured as it is.
-/

namespace PhasedUpgrade

/-! ## Renames -/

namespace Environment

variable {env later : NameMap String} {old new : String} {table : List (String × String)}

theorem get?_rename (apart : old ≠ new) (env : NameMap String) (name : String) :
    (rename env old new).get? name =
      if name = old then none
      else if name = new then (env.get? new).or (env.get? old)
      else env.get? name := by
  unfold rename
  cases held : env.get? old with
  | none =>
      by_cases isOld : name = old
      · rw [if_pos isOld, isOld, held]
      · by_cases isNew : name = new
        · simp [isNew, apart.symm]
        · simp [isOld, isNew]
  | some value =>
      have free : (env.erase old).get? new = env.get? new := by
        rw [NameMap.get?_erase, if_neg apart.symm]
      simp only [NameMap.contains, free]
      cases taken : env.get? new with
      | some other =>
          rw [Option.isSome_some, if_pos rfl, NameMap.get?_erase]
          by_cases isNew : name = new
          · simp [isNew, apart.symm, taken]
          · simp [isNew]
      | none =>
          rw [Option.isSome_none, if_neg Bool.false_ne_true, NameMap.get?_insert,
            NameMap.get?_erase]
          by_cases isNew : name = new
          · simp [isNew, apart.symm]
          · simp [isNew]

/-- Whether no name occurs twice in a table of renames. -/
def Distinct (table : List (String × String)) : Prop :=
  (table.flatMap fun entry => [entry.1, entry.2]).Nodup

/-- How what is found in a map is related to what is found once a table of renames is worked off. -/
structure Renamed (table : List (String × String)) (env later : NameMap String) : Prop where
  old : ∀ entry ∈ table, later.get? entry.1 = none
  new : ∀ entry ∈ table, later.get? entry.2 = (env.get? entry.2).or (env.get? entry.1)
  other : ∀ name, (∀ entry ∈ table, name ≠ entry.1 ∧ name ≠ entry.2) →
    later.get? name = env.get? name

/-- The rest of a table finds the map with the first rename made, which touches no other name. -/
theorem Renamed.cons (distinct : Distinct ((old, new) :: table))
    (rest : Renamed table (rename env old new) later) :
    Renamed ((old, new) :: table) env later := by
  have names : (old :: new :: table.flatMap fun entry => [entry.1, entry.2]).Nodup := distinct
  obtain ⟨oldIn, names⟩ := List.nodup_cons.mp names
  obtain ⟨newIn, _⟩ := List.nodup_cons.mp names
  have apart : old ≠ new := fun same => oldIn (same ▸ List.mem_cons_self)
  have oldApart : ∀ entry ∈ table, old ≠ entry.1 ∧ old ≠ entry.2 := fun entry mem =>
    ⟨fun same => oldIn (.tail _ (List.mem_flatMap.mpr ⟨entry, mem, by simp [same]⟩)),
      fun same => oldIn (.tail _ (List.mem_flatMap.mpr ⟨entry, mem, by simp [same]⟩))⟩
  have newApart : ∀ entry ∈ table, new ≠ entry.1 ∧ new ≠ entry.2 := fun entry mem =>
    ⟨fun same => newIn (List.mem_flatMap.mpr ⟨entry, mem, by simp [same]⟩),
      fun same => newIn (List.mem_flatMap.mpr ⟨entry, mem, by simp [same]⟩)⟩
  have here := get?_rename apart env
  refine ⟨List.forall_mem_cons.mpr ⟨?_, rest.old⟩, List.forall_mem_cons.mpr ⟨?_, ?_⟩, ?_⟩
  · rw [rest.other old oldApart, here, if_pos rfl]
  · rw [rest.other new newApart, here, if_neg apart.symm, if_pos rfl]
  · intro entry mem
    have unmoved : ∀ name, name ≠ old → name ≠ new →
        (rename env old new).get? name = env.get? name := fun name isOld isNew => by
      rw [here, if_neg isOld, if_neg isNew]
    rw [rest.new entry mem, unmoved _ (oldApart entry mem).2.symm (newApart entry mem).2.symm,
      unmoved _ (oldApart entry mem).1.symm (newApart entry mem).1.symm]
  · intro name apart
    obtain ⟨⟨isOld, isNew⟩, others⟩ := List.forall_mem_cons.mp apart
    rw [rest.other name others, here, if_neg isOld, if_neg isNew]

theorem renamed_foldl (distinct : Distinct table) (env : NameMap String) :
    Renamed table env (table.foldl (fun env (old, new) => rename env old new) env) := by
  induction table generalizing env with
  | nil => exact ⟨nofun, nofun, fun _ _ => rfl⟩
  | cons entry rest ih =>
      have others : Distinct rest := List.Nodup.sublist (List.sublist_append_right _ _) distinct
      exact .cons distinct (ih others (rename env entry.1 entry.2))

theorem distinct_renames : Distinct renames := by
  unfold Distinct
  decide

/-- What is set on a resume differs from what was captured by the names that were given up. -/
theorem renamed_restorable (captured : NameMap String) :
    Renamed renames captured (restorable captured) :=
  renamed_foldl distinct_renames captured

/-- What is set on a resume was captured under its own name or, without that, under an old one. -/
theorem origin_of_restorable {captured : NameMap String} {name value : String}
    (mem : (name, value) ∈ (restorable captured).entries) :
    (∀ entry ∈ renames, name ≠ entry.1) ∧
      (captured.get? name = some value ∨
        captured.get? name = none ∧
          ∃ old, (old, name) ∈ renames ∧ captured.get? old = some value) := by
  have renamed := renamed_restorable captured
  have found := NameMap.get?_eq_some_iff.mpr mem
  have current : ∀ entry ∈ renames, name ≠ entry.1 := by
    rintro entry among rfl
    rw [renamed.old entry among] at found
    cases found
  refine ⟨current, ?_⟩
  by_cases replaces : ∃ entry ∈ renames, name = entry.2
  · obtain ⟨⟨old, new⟩, among, rfl⟩ := replaces
    rw [renamed.new _ among] at found
    rcases Option.or_eq_some_iff.mp found with own | ⟨absent, moved⟩
    · exact .inl own
    · exact .inr ⟨absent, old, among, moved⟩
  · have unmoved := renamed.other name fun entry among =>
      ⟨current entry among, fun same => replaces ⟨entry, among, same⟩⟩
    exact .inl (unmoved.symm.trans found)

end Environment

/-! ## Turns and what they are taken with -/

/-- Whether a turn is the one that an actor of a registry takes with a view of its surroundings. -/
def Visit.TakenWith (registry : Registry) (supply : Supply) (view : View) (turn : Visit) : Prop :=
  ∃ actor ∈ registry.actors, ∃ bench, view.actor = actor.name ∧
    turn = (make supply view.execution view.phase actor bench).1

theorem Visit.exists_of_mem_makeAll {supply : Supply} {execution : Execution} {phase : String}
    {goesOn : ActorResult → Bool} {actors : List Actor} {bench : Workbench} {turn : Visit}
    (mem : turn ∈ (makeAll supply execution phase goesOn actors bench).1) :
    ∃ actor ∈ actors, ∃ found, turn = (make supply execution phase actor found).1 := by
  induction actors generalizing bench with
  | nil => cases mem
  | cons actor rest ih =>
      simp only [makeAll] at mem
      split at mem
      next =>
        rcases List.mem_cons.mp mem with rfl | later
        · exact ⟨actor, List.mem_cons_self, bench, rfl⟩
        · obtain ⟨other, among, there⟩ := ih later
          exact ⟨other, List.mem_cons_of_mem actor among, there⟩
      next =>
        rw [List.mem_singleton.mp mem]
        exact ⟨actor, List.mem_cons_self, bench, rfl⟩

namespace RunStep

def binding? : RunStep → Option (String × String)
  | .setVariable name value => some (name, value)
  | .visit _ | .save _ | .saveJournal _ _ => none

/-- Whether a step sets no variable and, if it is a turn, is one with a view of a configuration. -/
def Shows (registry : Registry) (supply : Supply) (configuration : Configuration) :
    RunStep → Prop
  | .setVariable _ _ => False
  | .visit turn => ∃ view, turn.TakenWith registry supply view ∧
      view.execution.configuration = configuration
  | .save _ | .saveJournal _ _ => True

variable {registry : Registry} {supply : Supply} {configuration : Configuration}
  {steps : List RunStep}

theorem binding?_setting (bindings : List (String × String)) :
    (Course.setting bindings).filterMap binding? = bindings := by
  rw [Course.setting, List.filterMap_map]
  exact List.filterMap_some

theorem binding?_of_shows (shows : ∀ step ∈ steps, step.Shows registry supply configuration) :
    steps.filterMap binding? = [] := by
  refine List.filterMap_eq_nil_iff.mpr fun step mem => ?_
  cases step with
  | setVariable name value => exact (shows _ mem).elim
  | visit _ | save _ | saveJournal _ _ => rfl

end RunStep

theorem EndedRun.bindings_eq {σ : Type} (run : EndedRun σ) :
    run.bindings = run.steps.filterMap RunStep.binding? :=
  List.filterMap_congr fun step _ => by cases step <;> rfl

/-! ## Resumed runs -/

namespace Course

variable {registry : Registry} (supply : Supply) {course : Course} {plan : List PlannedPhase}

theorem tryPhase_shows (course : Course) (isLastWanted : Phase → Bool) {planned : PlannedPhase}
    (known : ∀ actor ∈ planned.actors, actor ∈ registry.actors) :
    ∀ step ∈ (course.tryPhase supply isLastWanted planned).visits.map RunStep.visit,
      step.Shows registry supply course.execution.configuration := by
  intro step mem
  obtain ⟨turn, among, rfl⟩ := List.mem_map.mp mem
  obtain ⟨actor, part, found, made⟩ := Visit.exists_of_mem_makeAll among
  exact ⟨⟨actor.name, planned.phase.name, course.execution⟩,
    ⟨actor, known actor part, found, rfl, made⟩, rfl⟩

/-- All the way through its phases a run shows its actors the configuration that it starts with. -/
theorem runPhases_shows (mayRun : course.MayRun plan) (isLastWanted : Phase → Bool)
    (known : ∀ planned ∈ plan, ∀ actor ∈ planned.actors, actor ∈ registry.actors) :
    ∀ step ∈ (runPhases supply isLastWanted plan course).steps,
      step.Shows registry supply course.execution.configuration := by
  have written (after : Course) (count : Nat) (configuration : Configuration) :
      ∀ step ∈ after.persisted count, step.Shows registry supply configuration := by
    simp [persisted, RunStep.Shows]
  induction plan generalizing course with
  | nil =>
      rw [runPhases_nil mayRun.completed_mem]
      exact written _ _ _
  | cons planned rest ih =>
      obtain ⟨here, others⟩ := List.forall_mem_cons.mp known
      have turns := course.tryPhase_shows supply isLastWanted here
      obtain ⟨time, noted⟩ := (tryPhase_spec course supply isLastWanted planned).execution_eq
      generalize tried : course.tryPhase supply isLastWanted planned = trial at turns noted
      have first := List.forall_mem_append.mpr ⟨turns,
        written (trial.course.heeded supply trial.verdict)
          (course.keptBy trial (trial.course.heeded supply trial.verdict)) _⟩
      rcases runPhases_cons_cases mayRun.running tried rest with
        ⟨outcome, _, ran⟩ | ⟨_, still, ran⟩
      · rw [ran]
        exact first
      · have later := ih (.inl still) others
        rw [configuration_heeded, noted, configuration_note] at later
        rw [ran]
        exact List.forall_mem_append.mpr ⟨first, later⟩

/-- To take an execution up again does not change the configuration that it was captured with. -/
theorem resume_takes (course : Course) (legal : .resumed ∈ course.execution.state.successors)
    (hasPhases : Bool) :
    ∃ after, course.resume supply hasPhases =
        ⟨setting (restored course.execution) ++ [.save (course.taken supply).execution],
          .ok after⟩ ∧
      (after.execution.state = .running ∨
        after.execution.state = .resumed ∧ hasPhases = false) ∧
      after.execution.configuration = course.execution.configuration := by
  refine ⟨_, resume_eq legal hasPhases, ?_⟩
  cases hasPhases with
  | true => exact ⟨.inl rfl, rfl⟩
  | false => exact ⟨.inr ⟨rfl, rfl⟩, rfl⟩

/-- A resumed run first sets what it has to restore, and then nothing more. -/
theorem account_restores {entry : Entry} (resumes : entry.resumes = true) (bench : Workbench)
    (isLastWanted : Phase → Bool)
    (known : ∀ planned ∈ plan, ∀ actor ∈ planned.actors, actor ∈ registry.actors) :
    ∃ later, (account supply entry bench isLastWanted plan).steps =
        setting (restored entry.execution) ++ later ∧
      ∀ step ∈ later, step.Shows registry supply entry.execution.configuration := by
  let course : Course := ⟨entry.execution, bench⟩
  have opens : opening supply entry bench (!plan.isEmpty) =
      course.resume supply (!plan.isEmpty) := if_pos resumes
  by_cases legal : .resumed ∈ course.execution.state.successors
  · obtain ⟨after, took, state, configured⟩ := course.resume_takes supply legal (!plan.isEmpty)
    have shows := runPhases_shows supply (mayRun_of_opened state) isLastWanted known
    rw [configured] at shows
    have saved : ∀ step ∈ [RunStep.save (course.taken supply).execution],
        step.Shows registry supply entry.execution.configuration := by
      simp [RunStep.Shows]
    rw [account_eq (opens.trans took), List.append_assoc]
    exact ⟨_, rfl, List.forall_mem_append.mpr ⟨saved, shows⟩⟩
  · rw [account_eq_error (opens.trans (resume_eq_error legal _))]
    exact ⟨[], (List.append_nil _).symm, fun _ none => absurd none List.not_mem_nil⟩

end Course

section

variable {σ : Type} [Store σ] {setting : Setting} {supply : Supply} {store : σ} {entry : Entry}
  {kind : ExecutionKind} {id : Option ExecutionId}

/-- A run that is let in to resume takes no step at all, or restores the environment first. -/
theorem Setting.run_resume_cases
    (entered : (setting.entry supply (.resume kind id) store).1 = .ok entry)
    (options : RunOptions) (answers : Answers) :
    let run := setting.run supply (.resume kind id) options answers store
    run.steps = [] ∨ ∃ later,
      run.steps = Course.setting (Course.restored entry.execution) ++ later ∧
      ∀ step ∈ later, step.Shows setting.registry supply entry.execution.configuration := by
  intro run
  obtain ⟨_, _, _, _, _, _, _, _, made⟩ := Entry.resume_eq_ok entered
  have resumes : entry.resumes = true := by rw [made]
  cases planned : setting.account supply options answers entry with
  | error error =>
      rcases setting.run_cases supply (.resume kind id) options answers store with
        ⟨_, out, _⟩ | ⟨other, account, same, goes, _⟩
      · exact .inl (congrArg EndedRun.steps out)
      · obtain rfl := Except.ok.inj (entered.symm.trans same)
        cases planned.symm.trans goes
  | ok account =>
      obtain ⟨stop, plan, _, chosen, rfl⟩ := Setting.exists_plan planned
      obtain ⟨later, shape, shows⟩ := Course.account_restores supply resumes
        (entry.bench setting.registry.catalog answers)
        (setting.workflow.isLastWanted options.untilPhase stop) (Setting.mem_of_plan chosen)
      have part := (RunStep.performAll_prefix later
        (setting.entry supply (.resume kind id) store).2).1
      refine .inr ⟨_, ?_, fun step mem => shows step (part.subset mem)⟩
      rw [show run = _ from Setting.run_eq entered planned, Account.steps_perform, shape,
        RunStep.performAll_append (RunStep.performAll_setting _ _)]

/-- A resumed run that takes steps sets all there is to restore, whatever its actors are shown. -/
theorem Setting.run_resume
    (entered : (setting.entry supply (.resume kind id) store).1 = .ok entry)
    (options : RunOptions) (answers : Answers) :
    let run := setting.run supply (.resume kind id) options answers store
    (run.steps = [] ∨ run.bindings = Course.restored entry.execution) ∧
    ∀ turn ∈ run.visits, ∃ view, turn.TakenWith setting.registry supply view ∧
      view.execution.configuration = entry.execution.configuration := by
  intro run
  rw [EndedRun.bindings_eq, EndedRun.visits_eq]
  rcases Setting.run_resume_cases entered options answers with none | ⟨later, shape, shows⟩
  · rw [show run.steps = [] from none]
    exact ⟨.inl rfl, nofun⟩
  · rw [show run.steps = _ from shape, List.filterMap_append, RunStep.binding?_setting,
      RunStep.binding?_of_shows shows, List.append_nil]
    refine ⟨.inr rfl, fun turn mem => ?_⟩
    obtain ⟨step, among, same⟩ := List.mem_filterMap.mp mem
    rcases List.mem_append.mp among with early | late
    · obtain ⟨binding, _, rfl⟩ := List.mem_map.mp early
      cases same
    · cases step with
      | visit other =>
          obtain rfl := Option.some.inj same
          exact shows _ late
      | setVariable _ _ | save _ | saveJournal _ _ => cases same

/--
Of what a resumed run sets, each of its actors sees under the same name whatever was captured under
that name. The rest was captured under names that were given up: there alone the actors see it, and
those names are not set.
-/
theorem Setting.run_restores
    (entered : (setting.entry supply (.resume kind id) store).1 = .ok entry)
    (options : RunOptions) (answers : Answers) :
    let run := setting.run supply (.resume kind id) options answers store
    let captured := entry.execution.configuration.env
    (Entry.sought kind id store).1 = .ok entry.execution ∧
    (∀ binding ∈ run.bindings, ∀ rename ∈ Environment.renames, binding.1 ≠ rename.1) ∧
    ∀ turn ∈ run.visits, ∃ view, turn.TakenWith setting.registry supply view ∧
      view.execution.configuration = entry.execution.configuration ∧
      ∀ name value, (name, value) ∈ run.bindings →
        (captured.contains name = true → view.env? name = some value) ∧
        (captured.contains name = false → view.env? name = none ∧
          ∃ old, (old, name) ∈ Environment.renames ∧ view.env? old = some value) := by
  intro run captured
  obtain ⟨execution, _, _, _, _, sought, _, _, made⟩ := Entry.resume_eq_ok entered
  obtain ⟨sets, turns⟩ := Setting.run_resume entered options answers
  have origin : ∀ binding ∈ run.bindings, (∀ rename ∈ Environment.renames, binding.1 ≠ rename.1) ∧
      (captured.get? binding.1 = some binding.2 ∨ captured.get? binding.1 = none ∧
        ∃ old, (old, binding.1) ∈ Environment.renames ∧ captured.get? old = some binding.2) := by
    intro binding mem
    rcases sets with none | all
    · rw [EndedRun.bindings_eq, show run.steps = [] from none] at mem
      cases mem
    · rw [show run.bindings = _ from all] at mem
      exact Environment.origin_of_restorable mem
  refine ⟨by rw [sought, made], fun binding mem => (origin binding mem).1, fun turn mem => ?_⟩
  obtain ⟨view, takes, shown⟩ := turns turn mem
  have sees : ∀ name, view.env? name = captured.get? name := fun name => by
    rw [View.env?, shown]
  refine ⟨view, takes, shown, fun name value mem => ?_⟩
  simp only [sees, NameMap.contains]
  rcases (origin _ mem).2 with own | ⟨absent, old, renames, moved⟩
  · simp [own]
  · refine ⟨fun held => ?_, fun _ => ⟨absent, old, renames, moved⟩⟩
    rw [absent] at held
    cases held

end

/-- An execution of the workflow of two phases that waits for the reboot between them. -/
def Execution.waiting (captured : List (String × String)) : Execution :=
  { Execution.create default .upgrade "upgrade"
      ⟨"7.9", "8.10", "x86_64", .none, .ofList captured⟩ .epoch with
    state := .awaitingReboot
    lastCompletedPhase := some "prepare" }

/-- Of two variables that are set the actor sees the one that was captured under its own name. -/
theorem Setting.run_restores_of_waiting :
    let setting : Setting := ⟨.rebooting, ⟨.builtin, [.probe fun _ => pure ()], by simp⟩⟩
    let supply : Supply := ⟨fun _ => .epoch, fun _ => default, default⟩
    let execution := Execution.waiting [("IPU_DEBUG", "1"), ("IPU_DEVEL_SKIP_RHSM", "0")]
    let store := MemoryStore.empty.put execution
    let run := setting.run supply (.resume .upgrade none) .none .empty store
    run.bindings = [("IPU_DEBUG", "1"), ("IPU_NO_RHSM", "0")] ∧
    ∃ turn ∈ run.visits, ∃ view, turn.TakenWith setting.registry supply view ∧
      view.env? "IPU_DEBUG" = some "1" ∧ view.env? "IPU_NO_RHSM" = none := by
  intro setting supply execution store run
  have sets : run.bindings = [("IPU_DEBUG", "1"), ("IPU_NO_RHSM", "0")] := by decide +revert
  have once : run.visits.length = 1 := by decide +revert
  obtain ⟨entry, entered, same⟩ : ∃ entry,
      (setting.entry supply (.resume .upgrade none) store).1 = .ok entry ∧
      entry.execution = execution := ⟨_, rfl, rfl⟩
  obtain ⟨turn, only⟩ := List.length_eq_one_iff.mp once
  have mem : turn ∈ run.visits := only ▸ List.mem_singleton_self turn
  obtain ⟨_, _, turns⟩ := Setting.run_restores entered .none .empty
  obtain ⟨view, takes, _, sees⟩ := turns turn mem
  refine ⟨sets, turn, mem, view, takes, ?_, ?_⟩
  · refine (sees "IPU_DEBUG" "1" (sets ▸ by simp)).1 ?_
    rw [same]
    decide
  · refine ((sees "IPU_NO_RHSM" "0" (sets ▸ by simp)).2 ?_).1
    rw [same]
    decide

/-- An actor that asks for a name that is set in the place of an old one gets nothing. -/
theorem Setting.run_hides_renamed :
    let asks (view : View) : Task Unit :=
      Task.note "IPU_NO_RHSM" (((view.env? "IPU_NO_RHSM").map Json.string).getD .null)
    let setting : Setting := ⟨.rebooting, ⟨.builtin, [.probe asks], by simp⟩⟩
    let supply : Supply := ⟨fun _ => .epoch, fun _ => default, default⟩
    let store := MemoryStore.empty.put (.waiting [("IPU_DEVEL_SKIP_RHSM", "1")])
    let run := setting.run supply (.resume .upgrade none) .none .empty store
    run.bindings = [("IPU_NO_RHSM", "1")] ∧
      run.visits.map Visit.notes = [[("IPU_NO_RHSM", .null)]] := by
  intro asks setting supply store run
  exact ⟨by decide +revert, by decide +revert⟩

end PhasedUpgrade
