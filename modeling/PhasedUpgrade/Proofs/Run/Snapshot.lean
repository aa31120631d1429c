import PhasedUpgrade.Proofs.Run.Environment
import PhasedUpgrade.Proofs.Run.Records

/-!
# Configurations over histories

An execution is begun with a configuration, and all its records say the same of it: no run changes
it, and no other execution is begun under a name that is taken. So whatever runs have come between,
a resumed run restores just what was captured when its execution was begun, before it does anything
else. A run that begins an execution restores nothing.
-/

namespace PhasedUpgrade

open LawfulStore (holdings)

/-! ## Records of one run -/

section

variable {workflow : Workflow} {entry : Entry} {done : List RunStep} {standing : Standing}

theorem Entry.Opens.configuration_eq {written : Execution} (h : entry.Opens written) :
    written.configuration = entry.execution.configuration := by
  cases h <;> rfl

theorem Attempt.Ends.configuration_eq {attempt : Attempt} {next : Execution} {kept : List Message}
    {goesOn : Bool} (h : attempt.Ends workflow next kept goesOn) :
    next.configuration = attempt.written.configuration := by
  cases h <;> rfl

/-- Where a run stands, the records that it has in hand are of one configuration. -/
def Standing.With (configuration : Configuration) : Standing → Prop
  | .outside | .over => True
  | .trying attempt => attempt.written.configuration = configuration
  | .deciding attempt next _ _ =>
      attempt.written.configuration = configuration ∧ next.configuration = configuration

namespace Progress

theorem standing_with (h : Progress workflow entry done standing) :
    standing.With entry.execution.configuration := by
  induction h with
  | start => trivial
  | binding _ _ _ _ => trivial
  | enter _ opens _ => exact opens.configuration_eq
  | visit _ _ _ ih => exact ih
  | journal _ ends ih => exact ⟨ih, ends.configuration_eq.trans ih⟩
  | @record _ _ _ _ goesOn _ ih =>
      cases goesOn with
      | true => exact ih.2
      | false => trivial

theorem configured (h : Progress workflow entry done standing) :
    ∀ version, .save version ∈ done →
      version.configuration = entry.execution.configuration := by
  induction h with
  | start => exact fun _ none => nomatch none
  | binding _ _ _ ih => simpa using ih
  | visit _ _ _ ih => simpa using ih
  | journal _ _ ih => simpa using ih
  | @enter done written _ opens ih =>
      intro version mem
      rcases List.mem_append.mp mem with earlier | here
      · exact ih version earlier
      · have same : version = written := by simpa using here
        rw [same]
        exact opens.configuration_eq
  | @record done attempt next _ _ before ih =>
      intro version mem
      rcases List.mem_append.mp mem with earlier | here
      · exact ih version earlier
      · have same : version = next := by simpa using here
        rw [same]
        exact before.standing_with.2

end Progress

end

/-! ## Records over histories -/

namespace Chronicle

theorem execution?_append (id : ExecutionId) (log steps : List RunStep) :
    (ofSteps id (log ++ steps)).execution? =
      (RunStep.versions id steps).getLast?.or (ofSteps id log).execution? := by
  induction steps using List.reverseRecOn with
  | nil => simp [RunStep.versions]
  | append_singleton steps step ih =>
      rw [← List.append_assoc, ofSteps_concat]
      cases step with
      | setVariable name value =>
          rw [RunStep.versions_concat_of_ne steps (by simp)]
          exact ih
      | saveJournal other journal =>
          rw [RunStep.versions_concat_of_ne steps (by simp), ← ih, note]
          split <;> rfl
      | visit turn =>
          rw [RunStep.versions_concat_of_ne steps (by simp), ← ih, note]
          split <;> rfl
      | save version =>
          by_cases own : version.id = id
          · rw [RunStep.versions_concat_save steps own, note_save own]
            simp [saved]
          · have apart : ∀ other, RunStep.save version = .save other → other.id ≠ id := by
              rintro other ⟨⟩
              exact own
            rw [RunStep.versions_concat_of_ne steps apart, ← ih, note, if_neg own]

end Chronicle

/-- Whether an execution was begun in a call, with a configuration: its record was written. -/
structure Episode.Begins (episode : Episode) (id : ExecutionId) (configuration : Configuration) :
    Prop where
  fresh : ∃ kind, episode.call.request = .fresh kind configuration
  named : episode.call.supply.executionId = id
  written : ∃ version, .save version ∈ episode.steps

section

variable {workflow : Workflow} {σ : Type} [LawfulStore σ] {log : List RunStep} {store : σ}
  {call : Call} {id : ExecutionId} {configuration : Configuration}

theorem Call.entry_of_save {version : Execution}
    (mem : .save version ∈ (call.make workflow store).1.steps) :
    ∃ entry, ((call.setting workflow).entry call.supply call.request store).1 = .ok entry ∧
      version.id = entry.execution.id ∧
      version.configuration = entry.execution.configuration := by
  rcases call.make_eq workflow store with
    ⟨error, out, _⟩ | ⟨entry, account, after, entered, planned, made⟩
  · rw [out] at mem
    cases mem
  · rw [made] at mem
    obtain ⟨standing, progress⟩ :=
      Setting.account_progress planned (call.carryOut_prefix account after)
    exact ⟨entry, by rw [entered], progress.own _ mem _ rfl, progress.configured version mem⟩

theorem Call.configured_of_stored (held : holdings store = .ofSteps log)
    (new : call.NamesNew store) {stored version : Execution}
    (there : (holdings store).execution? id = some stored)
    (mem : .save version ∈ (call.make workflow store).1.steps) (own : version.id = id) :
    version.configuration = stored.configuration := by
  obtain ⟨entry, entered, named, configured⟩ := Call.entry_of_save mem
  rw [configured]
  have known := there
  rw [held] at known
  cases (Setting.entry_spec workflow held new).2 entry entered with
  | fresh absent kind configuration time =>
      obtain rfl : id = _ := own.symm.trans named
      cases absent.symm.trans known
  | resumed found placed =>
      obtain rfl : id = _ := own.symm.trans named
      rw [Option.some.inj (found.symm.trans known)]

/-- A call that begins an execution writes only records of the configuration that it was given. -/
theorem Call.configured_of_fresh {kind : ExecutionKind}
    (fresh : call.request = .fresh kind configuration) {version : Execution}
    (mem : .save version ∈ (call.make workflow store).1.steps) :
    version.id = call.supply.executionId ∧ version.configuration = configuration := by
  obtain ⟨entry, entered, named, configured⟩ := Call.entry_of_save mem
  rw [fresh] at entered
  obtain rfl := Except.ok.inj entered
  exact ⟨named, configured⟩

theorem Call.execution?_make (held : holdings store = .ofSteps log) (new : call.NamesNew store)
    (id : ExecutionId) : (holdings (call.make workflow store).2).execution? id =
      (RunStep.versions id (call.make workflow store).1.steps).getLast?.or
        ((holdings store).execution? id) := by
  rw [(Call.make_spec workflow held new).1, held]
  exact Chronicle.execution?_append id log _

theorem RunStep.id_of_mem_versions {steps : List RunStep} {version : Execution}
    (h : version ∈ versions id steps) : version.id = id := by
  obtain ⟨step, _, same⟩ := List.mem_filterMap.mp h
  cases step with
  | save written =>
      obtain ⟨own, rfl⟩ : written.id = id ∧ written = version := by simpa using same
      exact own
  | setVariable _ _ | visit _ | saveJournal _ _ => cases same

theorem Call.call_make {σ : Type} [Store σ] (call : Call) (workflow : Workflow) (store : σ) :
    (call.make workflow store).1.call = call := by
  rcases call.make_eq workflow store with ⟨_, out, _⟩ | ⟨_, account, after, _, _, made⟩
  · rw [out]
  · rw [made]
    unfold carryOut
    rcases RunStep.performAll (call.living account.steps) after with ⟨_, _ | ⟨⟨⟩⟩, _⟩ <;> rfl

/-- A call for a new execution has begun it once it has written a record. -/
theorem Call.begins {σ : Type} [Store σ] {call : Call} {workflow : Workflow} {store : σ}
    {kind : ExecutionKind} {configuration : Configuration} {version : Execution}
    (fresh : call.request = .fresh kind configuration)
    (mem : .save version ∈ (call.make workflow store).1.steps) :
    (call.make workflow store).1.Begins call.supply.executionId configuration where
  fresh := ⟨kind, by rw [call_make, fresh]⟩
  named := by rw [call_make]
  written := ⟨version, mem⟩

/--
Whatever calls follow, the stored record is of the configuration that its execution began with.
-/
theorem History.configured {episodes : List Episode} (history : History workflow episodes store)
    {begun : Episode} (among : begun ∈ episodes) (begins : begun.Begins id configuration) :
    ∃ stored, (holdings store).execution? id = some stored ∧
      stored.configuration = configuration := by
  induction history with
  | empty _ => cases among
  | idle _ same ih =>
      rw [same]
      exact ih among
  | @call episodes store call history new ih =>
      have held := history.holdings_eq
      rw [Call.execution?_make held new]
      rcases List.mem_append.mp among with earlier | here
      · obtain ⟨stored, there, same⟩ := ih earlier
        cases last : (RunStep.versions id (call.make workflow store).1.steps).getLast? with
        | none => exact ⟨stored, there, same⟩
        | some version =>
            have among := List.mem_of_getLast? last
            have kept := Call.configured_of_stored held new there
              (RunStep.mem_of_mem_versions among) (RunStep.id_of_mem_versions among)
            exact ⟨version, rfl, kept.trans same⟩
      · obtain rfl := List.mem_singleton.mp here
        obtain ⟨⟨kind, fresh⟩, named, first, written⟩ := begins
        rw [Call.call_make] at fresh named
        have own := (Call.configured_of_fresh fresh written).1.trans named
        have some := List.ne_nil_of_mem (RunStep.mem_versions written own)
        obtain ⟨version, last⟩ := Option.ne_none_iff_exists'.mp
          (mt List.getLast?_eq_none_iff.mp some)
        have among := RunStep.mem_of_mem_versions (List.mem_of_getLast? last)
        rw [last]
        exact ⟨version, rfl, (Call.configured_of_fresh fresh among).2⟩

end

/-! ## What a call sets -/

namespace Course

variable {registry : Registry} (supply : Supply) {plan : List PlannedPhase}

theorem account_begins {entry : Entry} (begins : entry.resumes = false) (bench : Workbench)
    (isLastWanted : Phase → Bool)
    (known : ∀ planned ∈ plan, ∀ actor ∈ planned.actors, actor ∈ registry.actors) :
    ∀ step ∈ (account supply entry bench isLastWanted plan).steps,
      step.Shows registry supply entry.execution.configuration := by
  let course : Course := ⟨entry.execution, bench⟩
  have opens : opening supply entry bench (!plan.isEmpty) = course.begin supply := by
    unfold opening
    rw [begins]
    rfl
  by_cases legal : .running ∈ course.execution.state.successors
  · have mayRun : (course.changed supply .running).MayRun plan := .inl rfl
    have shows := runPhases_shows supply mayRun isLastWanted known
    rw [account_eq (opens.trans (begin_eq legal))]
    exact List.forall_mem_append.mpr ⟨by simp [RunStep.Shows], shows⟩
  · rw [account_eq_error (opens.trans (begin_eq_error legal))]
    exact fun _ none => absurd none List.not_mem_nil

end Course

namespace Setting

variable {setting : Setting} {supply : Supply} {options : RunOptions} {answers : Answers}
  {entry : Entry} {account : Account RunResult}

theorem account_restores (planned : setting.account supply options answers entry = .ok account)
    (resumes : entry.resumes = true) :
    ∃ later, account.steps = Course.setting (Course.restored entry.execution) ++ later ∧
      ∀ step ∈ later, step.Shows setting.registry supply entry.execution.configuration := by
  obtain ⟨stop, plan, _, chosen, rfl⟩ := exists_plan planned
  exact Course.account_restores supply resumes _ _ (mem_of_plan chosen)

theorem account_begins (planned : setting.account supply options answers entry = .ok account)
    (begins : entry.resumes = false) :
    ∀ step ∈ account.steps, step.Shows setting.registry supply entry.execution.configuration := by
  obtain ⟨stop, plan, _, chosen, rfl⟩ := exists_plan planned
  exact Course.account_begins supply begins _ _ (mem_of_plan chosen)

end Setting

namespace Call

variable {σ : Type} [Store σ] {workflow : Workflow} {store : σ} {call : Call} {entry : Entry}
  {account : Account RunResult} {kind : ExecutionKind}

theorem living_append {first : List RunStep} (lives : call.survives first = true)
    (rest : List RunStep) :
    ∃ later, later <+: rest ∧ call.living (first ++ rest) = first ++ later := by
  unfold survives at lives
  unfold living
  cases lifespan : call.lifespan with
  | none => exact ⟨rest, List.prefix_rfl, rfl⟩
  | some count =>
      rw [lifespan] at lives
      have enough : first.length ≤ count := by simpa using lives
      refine ⟨rest.take (count - first.length), List.take_prefix _ rest, ?_⟩
      show (first ++ rest).take count = _
      rw [List.take_append, List.take_of_length_le enough]

/-- A call that resumes first sets what was captured of its execution, and then nothing more. -/
theorem make_restores {id : Option ExecutionId} (resumes : call.request = .resume kind id)
    (entered : ((call.setting workflow).entry call.supply call.request store).1 = .ok entry)
    (planned : (call.setting workflow).account call.supply call.options call.answers entry =
      .ok account)
    (lives : call.survives (Course.setting (Course.restored entry.execution)) = true) :
    ∃ later, (call.make workflow store).1.steps =
        Course.setting (Course.restored entry.execution) ++ later ∧
      ∀ step ∈ later, step.Shows call.registry call.supply entry.execution.configuration := by
  have taken : entry.resumes = true := by
    rw [resumes] at entered
    obtain ⟨_, _, _, _, _, _, _, _, made⟩ := Entry.resume_eq_ok entered
    rw [made]
  obtain ⟨rest, steps, shows⟩ := Setting.account_restores planned taken
  rcases call.make_eq workflow store with
    ⟨_, _, failed | ⟨other, same, failed⟩⟩ | ⟨other, account', after, same, planned', made⟩
  · cases entered.symm.trans failed
  · obtain rfl := Except.ok.inj (entered.symm.trans same)
    cases planned.symm.trans failed
  · rw [same] at entered
    obtain rfl := Except.ok.inj entered
    obtain rfl := Except.ok.inj (planned.symm.trans planned')
    obtain ⟨lived, part, living⟩ := living_append lives rest
    have carried := RunStep.performAll_append
      (RunStep.performAll_setting (Course.restored other.execution) after) lived
    have done := (RunStep.performAll_prefix lived after).1.trans part
    rw [made, steps_carryOut, steps, living, carried]
    exact ⟨_, rfl, fun step mem => shows step (done.subset mem)⟩

theorem make_sets_nothing {configuration : Configuration}
    (fresh : call.request = .fresh kind configuration) (workflow : Workflow) (store : σ) :
    (call.make workflow store).1.steps.filterMap RunStep.binding? = [] := by
  rcases call.make_eq workflow store with
    ⟨_, out, _⟩ | ⟨entry, account, after, entered, planned, made⟩
  · rw [out]
    rfl
  · rw [fresh] at entered
    obtain rfl := Except.ok.inj (congrArg Prod.fst entered)
    have shows := Setting.account_begins planned rfl
    have part := call.carryOut_prefix account after
    rw [made]
    exact RunStep.binding?_of_shows fun step mem => shows step (part.subset mem)

end Call

/--
Whatever calls have come since an execution was begun, a call that resumes it first sets what was
captured then, and then nothing more.
-/
theorem History.restores {workflow : Workflow} {σ : Type} [LawfulStore σ] {episodes : List Episode}
    {store : σ} (history : History workflow episodes store) {begun : Episode} {id : ExecutionId}
    {configuration : Configuration} (among : begun ∈ episodes)
    (begins : begun.Begins id configuration) {call : Call} {kind : ExecutionKind}
    {asked : Option ExecutionId} (resumes : call.request = .resume kind asked) {entry : Entry}
    {account : Account RunResult}
    (entered : ((call.setting workflow).entry call.supply call.request store).1 = .ok entry)
    (named : entry.execution.id = id)
    (planned : (call.setting workflow).account call.supply call.options call.answers entry =
      .ok account) :
    let bindings := (Environment.restorable configuration.env).entries
    call.survives (Course.setting bindings) = true →
      ∃ later, (call.make workflow store).1.steps = Course.setting bindings ++ later ∧
        later.filterMap RunStep.binding? = [] := by
  intro bindings lives
  subst named
  have held := history.holdings_eq
  have new : call.NamesNew store := Call.namesNew_of_resume resumes store
  obtain ⟨stored, there, same⟩ := history.configured among begins
  have captured : entry.execution.configuration = configuration := by
    rw [held] at there
    cases (Setting.entry_spec workflow held new).2 entry entered with
    | fresh absent _ _ _ => cases absent.symm.trans there
    | resumed found _ => rw [← same, Option.some.inj (found.symm.trans there)]
  have restored : Course.restored entry.execution = bindings := by
    rw [Course.restored, captured]
  rw [← restored] at lives ⊢
  obtain ⟨later, shape, shows⟩ := Call.make_restores resumes entered planned lives
  exact ⟨later, shape, RunStep.binding?_of_shows shows⟩

end PhasedUpgrade
