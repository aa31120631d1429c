import PhasedUpgrade.Proofs.Run.Undertaking

/-!
# Durable phases

No actor acts before all that its phase builds upon is stored: the record of its execution, which
says that the execution is underway and names the phase before as the last one, and behind that a
journal with the messages of all phases before. A write that fails ends the run, so this holds
wherever the store may fail.
-/

namespace PhasedUpgrade

open LawfulStore (holdings)

/-! ## Steps on stores -/

namespace Holdings

def after (held : Holdings) : RunStep → Holdings
  | .setVariable _ _ | .visit _ => held
  | .save execution => held.put execution
  | .saveJournal id journal => held.putJournal id journal

def behind (held : Holdings) (steps : List RunStep) : Holdings :=
  steps.foldl after held

theorem behind_concat (held : Holdings) (steps : List RunStep) (step : RunStep) :
    held.behind (steps ++ [step]) = (held.behind steps).after step :=
  List.foldl_concat _ _ _ _

end Holdings

namespace RunStep

section

variable {σ : Type} [Store σ] {step : RunStep} {first rest steps : List RunStep}
  {store next there : σ}

theorem performAll_cons (h : step.perform store = (.ok (), next)) :
    performAll (step :: rest) store =
      (step :: (performAll rest next).1, (performAll rest next).2) := by
  rw [performAll, h]

theorem performAll_cons_eq_ok_iff :
    performAll (step :: rest) store = (step :: rest, .ok (), there) ↔
      ∃ next, step.perform store = (.ok (), next) ∧
        performAll rest next = (rest, .ok (), there) := by
  constructor
  · intro h
    rcases made : step.perform store with ⟨error | ⟨⟨⟩⟩, next⟩
    · rw [performAll, made] at h
      simp at h
    · rw [performAll_cons made] at h
      obtain ⟨whole, last⟩ := Prod.mk.inj h
      exact ⟨next, rfl, Prod.ext (List.cons.inj whole).2 last⟩
  · rintro ⟨next, made, later⟩
    rw [performAll_cons made, later]

theorem performAll_append (h : performAll first store = (first, .ok (), there))
    (second : List RunStep) :
    performAll (first ++ second) store =
      (first ++ (performAll second there).1, (performAll second there).2) := by
  induction first generalizing store with
  | nil =>
      cases h
      rfl
  | cons step rest ih =>
      obtain ⟨next, made, later⟩ := performAll_cons_eq_ok_iff.mp h
      rw [List.cons_append, performAll_cons made, ih later, List.cons_append]

theorem performAll_of_prefix (h : first <+: (performAll steps store).1) :
    ∃ there, performAll first store = (first, .ok (), there) := by
  induction first generalizing steps store with
  | nil => exact ⟨store, rfl⟩
  | cons step rest ih =>
      cases steps with
      | nil => exact absurd (List.prefix_nil.mp h) (List.cons_ne_nil _ _)
      | cons other more =>
          rcases made : other.perform store with ⟨error | ⟨⟨⟩⟩, next⟩
          · rw [performAll, made] at h
            exact absurd (List.prefix_nil.mp h) (List.cons_ne_nil _ _)
          · rw [performAll_cons made] at h
            obtain ⟨rfl, later⟩ := List.cons_prefix_cons.mp h
            obtain ⟨there, last⟩ := ih later
            exact ⟨there, performAll_cons_eq_ok_iff.mpr ⟨next, made, last⟩⟩

end

variable {σ : Type} [LawfulStore σ] {steps : List RunStep} {store there : σ}

theorem holdings_perform {step : RunStep} (h : (step.perform store).1 = .ok ()) :
    holdings (step.perform store).2 = (holdings store).after step := by
  cases step with
  | setVariable name value => rfl
  | visit turn => rfl
  | save execution =>
      refine (LawfulStore.holdings_save execution store).trans ?_
      rw [show (Store.save execution store).1 = .ok () from h]
      rfl
  | saveJournal id journal =>
      refine (LawfulStore.holdings_saveJournal id journal store).trans ?_
      rw [show (Store.saveJournal id journal store).1 = .ok () from h]
      rfl

theorem holdings_performAll (h : performAll steps store = (steps, .ok (), there)) :
    holdings there = (holdings store).behind steps := by
  induction steps generalizing store with
  | nil =>
      cases h
      rfl
  | cons step rest ih =>
      obtain ⟨next, made, later⟩ := performAll_cons_eq_ok_iff.mp h
      have one := holdings_perform (congrArg Prod.fst made)
      rw [made] at one
      rw [ih later, one]
      rfl

end RunStep

/-! ## Attempts on stores -/

/-- Whether what is held bears an attempt out: its record, and the messages that count with it. -/
structure Holdings.Backs (held : Holdings) (workflow : Workflow) (attempt : Attempt) : Prop where
  stored : held.execution? attempt.written.id = some attempt.written
  active : attempt.written.state = .running ∨ attempt.written.state = .resumed
  last_eq : attempt.written.lastCompletedPhase = workflow.nameBefore attempt.place
  logged : attempt.log ⊆ (held.journal attempt.written.id).messages

/-- What is held where a run stands. -/
def Standing.Durable (workflow : Workflow) (entry : Entry) (held : Holdings) : Standing → Prop
  | .outside => entry.journal.messages ⊆ (held.journal entry.execution.id).messages
  | .trying attempt => held.Backs workflow attempt
  | .deciding attempt next kept goesOn =>
      attempt.Ends workflow next kept goesOn ∧ (held.journal attempt.written.id).messages = kept
  | .over => True

section

variable {workflow : Workflow} {entry : Entry} {done : List RunStep} {standing : Standing}

theorem Attempt.Ends.onward {attempt : Attempt} {next : Execution} {kept : List Message}
    (h : attempt.Ends workflow next kept true) :
    next.state = .running ∧
      next.lastCompletedPhase = workflow.nameBefore (attempt.place + 1) ∧
      kept = attempt.log ++ attempt.produced := by
  cases h with
  | committed found gate leaves time₁ time₂ =>
      cases leaves
      exact ⟨rfl, (Workflow.nameBefore_succ found).symm, rfl⟩

/-- Each step of a run that is carried out leaves the store as the next one relies on it. -/
theorem Progress.durable (h : Progress workflow entry done standing) {held : Holdings}
    (last : entry.execution.lastCompletedPhase = workflow.nameBefore entry.start)
    (logged : entry.journal.messages ⊆ (held.journal entry.execution.id).messages) :
    standing.Durable workflow entry (held.behind done) := by
  induction h with
  | start => exact logged
  | binding name value _ ih =>
      rw [Holdings.behind_concat]
      exact ih
  | @enter done written _ opens ih =>
      rw [Holdings.behind_concat]
      exact {
        stored := if_pos rfl
        active := opens.active
        last_eq := by cases opens <;> exact last
        logged := by
          show entry.journal.messages ⊆ ((held.behind done).journal written.id).messages
          rw [opens.id_eq]
          exact ih }
  | visit _ _ _ ih =>
      rw [Holdings.behind_concat]
      exact ⟨ih.stored, ih.active, ih.last_eq, ih.logged⟩
  | journal _ ends _ =>
      rw [Holdings.behind_concat]
      exact ⟨ends, congrArg Journal.messages (if_pos rfl)⟩
  | @record done attempt next kept goesOn _ ih =>
      rw [Holdings.behind_concat]
      obtain ⟨ends, written⟩ := ih
      cases goesOn with
      | false => trivial
      | true =>
          obtain ⟨state, last, whole⟩ := ends.onward
          exact {
            stored := if_pos rfl
            active := .inl state
            last_eq := last
            logged := by
              show attempt.log ++ attempt.produced ⊆ ((held.behind done).journal next.id).messages
              rw [ends.id_eq, written, whole]
              exact List.Subset.refl _ }

end

/-! ## Entries on stores -/

section

variable {σ : Type} [LawfulStore σ] {setting : Setting} {supply : Supply} {request : RunRequest}
  {store : σ} {entry : Entry} {log : List RunStep}

theorem Setting.entry_eq_ok (h : (setting.entry supply request store).1 = .ok entry) :
    (∃ id kind configuration time,
      entry = .fresh setting.workflow id kind configuration time) ∨
    ∃ execution place, setting.workflow.resumePlace execution = .ok place ∧
      entry = ⟨execution, place, setting.workflow.committedJournal place
        ((holdings store).journal execution.id), true⟩ := by
  cases request with
  | fresh kind configuration => exact .inl ⟨_, _, _, _, (Except.ok.inj h).symm⟩
  | resume kind id =>
      obtain ⟨execution, place, journal, after, later, answer, placed, reading, rfl⟩ :=
        Entry.resume_eq_ok h
      have same := Entry.holdings_sought kind id store
      have kept := LawfulStore.eq_of_loadJournal (congrArg Prod.fst reading)
      rw [answer] at same
      rw [same] at kept
      exact .inr ⟨execution, place, placed, by rw [kept]⟩

/-- A run is entered behind the phase that its record names, with messages of the stored journal. -/
theorem Setting.entry_behind (h : (setting.entry supply request store).1 = .ok entry) :
    entry.execution.lastCompletedPhase = setting.workflow.nameBefore entry.start ∧
      entry.journal.messages ⊆ ((holdings store).journal entry.execution.id).messages := by
  rcases Setting.entry_eq_ok h with
    ⟨id, kind, configuration, time, rfl⟩ | ⟨execution, place, placed, rfl⟩
  · exact ⟨rfl, List.nil_subset _⟩
  · exact ⟨Workflow.lastCompletedPhase_of_placeAfter (Workflow.resumePlace_spec placed).2.1,
      List.filter_sublist.subset⟩

/--
The steps that an entry comes behind: none if it begins its execution, and otherwise those of calls
that have left, in this store or in another one, the record and the journal that it takes up.
-/
inductive Entry.Follows (workflow : Workflow) (store : σ) (entry : Entry) : List RunStep → Prop
  | fresh (begins : entry.resumes = false) : Follows workflow store entry []
  | resumed {τ : Type} [LawfulStore τ] {episodes : List Episode} {origin : τ}
      (resumes : entry.resumes = true) (history : History workflow episodes origin)
      (record : (holdings origin).execution? entry.execution.id = some entry.execution)
      (journal : (holdings origin).journal entry.execution.id =
        (holdings store).journal entry.execution.id) :
      Follows workflow store entry (Episode.allSteps episodes)

theorem Entry.Follows.enters (follows : entry.Follows setting.workflow store log)
    (h : (setting.entry supply request store).1 = .ok entry) :
    Enters setting.workflow log entry ∧
      (Chronicle.ofSteps entry.execution.id log).Sound setting.workflow := by
  cases follows with
  | fresh begins =>
      rcases Setting.entry_eq_ok h with ⟨id, kind, configuration, time, rfl⟩ | ⟨_, _, _, rfl⟩
      · exact ⟨.fresh rfl kind configuration time, .empty setting.workflow⟩
      · cases begins
  | resumed resumes history record journal =>
      refine ⟨?_, history.runs.sound entry.execution.id⟩
      rw [history.holdings_eq] at record journal
      rcases Setting.entry_eq_ok h with ⟨_, _, _, _, rfl⟩ | ⟨execution, place, placed, rfl⟩
      · cases resumes
      · rw [← journal]
        exact .resumed record placed

end

/-! ## Runs on stores -/

section

variable {σ : Type} [Store σ] {setting : Setting} {supply : Supply} {request : RunRequest}
  {options : RunOptions} {answers : Answers} {store : σ}

theorem Account.steps_perform (account : Account RunResult) (store : σ) :
    (account.perform store).steps = (RunStep.performAll account.steps store).1 := by
  unfold perform
  rcases RunStep.performAll account.steps store with ⟨done, error | ⟨⟨⟩⟩, last⟩ <;> rfl

theorem Setting.run_eq {entry : Entry} {account : Account RunResult}
    (entered : (setting.entry supply request store).1 = .ok entry)
    (planned : setting.account supply options answers entry = .ok account) :
    setting.run supply request options answers store =
      account.perform (setting.entry supply request store).2 := by
  unfold Setting.run
  rcases made : setting.entry supply request store with ⟨result, after⟩
  rw [made] at entered
  obtain rfl : result = .ok entry := entered
  simp only [planned]

theorem Setting.exists_account
    (acts : (setting.run supply request options answers store).steps ≠ []) :
    ∃ entry account, (setting.entry supply request store).1 = .ok entry ∧
      setting.account supply options answers entry = .ok account := by
  unfold Setting.run at acts
  rcases made : setting.entry supply request store with ⟨error | entry, after⟩ <;> rw [made] at acts
  · exact absurd rfl acts
  · cases planned : setting.account supply options answers entry with
    | error error =>
        simp only [planned] at acts
        exact absurd rfl acts
    | ok account => exact ⟨entry, account, rfl, planned⟩

/-- A step that fails is the last thing that a run does. -/
theorem Account.perform_of_error {account : Account RunResult} {before rest : List RunStep}
    {step : RunStep} {there last : σ} {error : StoreError}
    (shape : account.steps = before ++ step :: rest)
    (carried : RunStep.performAll before store = (before, .ok (), there))
    (failed : step.perform there = (.error error, last)) :
    account.perform store = ⟨.error (.store error), before, last⟩ := by
  have ended : RunStep.performAll (step :: rest) there = ([], .error error, last) := by
    rw [RunStep.performAll, failed]
  have whole := RunStep.performAll_append carried (step :: rest)
  unfold perform
  rw [shape, whole, ended, List.append_nil]

end

section

variable {σ : Type} [LawfulStore σ] {setting : Setting} {supply : Supply} {request : RunRequest}
  {options : RunOptions} {answers : Answers} {store : σ} {before after : List RunStep}
  {turn : Visit}

/--
Where an actor acts, the run has carried out all steps before and tries the phase of the actor.
-/
theorem Setting.run_at_visit (split : (setting.run supply request options answers store).steps =
      before ++ .visit turn :: after) :
    ∃ entry attempt phase there, (setting.entry supply request store).1 = .ok entry ∧
      Progress setting.workflow entry before (.trying attempt) ∧
      setting.workflow.phases[attempt.place]? = some phase ∧
      turn.OfPhase attempt.written.id phase.name ∧
      RunStep.performAll before (setting.entry supply request store).2 =
        (before, .ok (), there) := by
  have acts : (setting.run supply request options answers store).steps ≠ [] := by
    rw [split]
    simp
  obtain ⟨entry, account, entered, planned⟩ := Setting.exists_account acts
  rw [Setting.run_eq entered planned, Account.steps_perform] at split
  have first : before ++ [.visit turn] <+:
      (RunStep.performAll account.steps (setting.entry supply request store).2).1 :=
    ⟨after, by simp [split]⟩
  obtain ⟨_, progress⟩ := Setting.account_progress planned
    (first.trans (RunStep.performAll_prefix account.steps _).1)
  obtain ⟨attempt, phase, trying, found, own⟩ := progress.of_visit
  obtain ⟨there, carried⟩ :=
    RunStep.performAll_of_prefix ((List.prefix_append before _).trans first)
  exact ⟨entry, attempt, phase, there, entered, trying, found, own, carried⟩

/-- What is stored there backs the attempt that the actor takes part in. -/
theorem Setting.backs_of_trying {entry : Entry} {attempt : Attempt} {there : σ}
    (entered : (setting.entry supply request store).1 = .ok entry)
    (trying : Progress setting.workflow entry before (.trying attempt))
    (carried : RunStep.performAll before (setting.entry supply request store).2 =
      (before, .ok (), there)) :
    (holdings there).Backs setting.workflow attempt := by
  obtain ⟨last, logged⟩ := Setting.entry_behind entered
  rw [← Setting.holdings_entry setting supply request store] at logged
  rw [RunStep.holdings_performAll carried]
  exact trying.durable last logged

end

/--
Whenever an actor acts in a run, the store holds a record of its execution that is underway and
names the phase before as the last completed one. If the execution is begun by the run, or has been
left by earlier calls, then the phases before have all been committed, and the stored journal has
the messages of their attempts. A write that fails ends the run with its error, and nothing comes
behind it.
-/
theorem Setting.run_durable {σ : Type} [LawfulStore σ] (setting : Setting) (supply : Supply)
    (request : RunRequest) (options : RunOptions) (answers : Answers) (store : σ) :
    let run := setting.run supply request options answers store
    let entered := setting.entry supply request store
    (∀ before turn after, run.steps = before ++ .visit turn :: after →
      ∃ entry place phase there record, entered.1 = .ok entry ∧
        turn.execution = entry.execution.id ∧
        setting.workflow.phases[place]? = some phase ∧ turn.phase = phase.name ∧
        RunStep.performAll before entered.2 = (before, .ok (), there) ∧
        (holdings there).execution? turn.execution = some record ∧ record.id = turn.execution ∧
        (record.state = .running ∨ record.state = .resumed) ∧
        record.lastCompletedPhase = setting.workflow.nameBefore place ∧
        ∀ log, entry.Follows setting.workflow store log →
          let chronicle := Chronicle.ofSteps turn.execution (log ++ before)
          chronicle.commits.map Commit.phase =
            (setting.workflow.phases.take place).map Phase.name ∧
          chronicle.committed ⊆ ((holdings there).journal turn.execution).messages) ∧
    ∀ entry account before step rest there error last, entered.1 = .ok entry →
      setting.account supply options answers entry = .ok account →
      account.steps = before ++ step :: rest →
      RunStep.performAll before entered.2 = (before, .ok (), there) →
      step.perform there = (.error error, last) → run = ⟨.error (.store error), before, last⟩ := by
  intro run entered
  refine ⟨fun before turn after split => ?_, ?_⟩
  · obtain ⟨entry, attempt, phase, there, accepted, trying, found, own, carried⟩ :=
      Setting.run_at_visit split
    have backs := Setting.backs_of_trying accepted trying carried
    have mine : attempt.written.id = entry.execution.id := trying.standing_of
    rw [own.execution_eq]
    refine ⟨entry, attempt.place, phase, there, attempt.written, accepted, mine, found,
      own.phase_eq, carried, backs.stored, rfl, backs.active, backs.last_eq, fun log follows => ?_⟩
    obtain ⟨enters, start⟩ := follows.enters accepted
    obtain ⟨sound, tries⟩ := trying.sound enters start
    have tries : (Chronicle.ofSteps entry.execution.id (log ++ before)).Tries setting.workflow
      attempt := tries
    refine ⟨?_, ?_⟩
    · rw [mine, tries.place_eq]
      exact sound.phases_eq
    · have logged := backs.logged
      rwa [tries.log_eq, ← mine] at logged
  · intro entry account before step rest there error last accepted planned shape carried failed
    show setting.run supply request options answers store = _
    rw [Setting.run_eq accepted planned]
    exact Account.perform_of_error shape carried failed

/--
The run of two phases whose third record cannot be written: the second phase begins behind the
record and the journal of the first one, and the run ends before its own record is there.
-/
theorem Setting.run_durable_to_failed_write :
    let file : View → Task Unit := fun _ => Task.report (.informational "found" "a fact")
    let phases : List Phase := [.plain "prepare" "upgrade", .plain "apply" "upgrade"]
    let setting : Setting := ⟨⟨"upgrade", "upgrade", phases, List.cons_ne_nil _ _, by decide⟩,
      ⟨.builtin, [.probe file], by simp⟩⟩
    let supply : Supply := ⟨fun _ => .epoch, fun _ => default, default⟩
    let store : Watched MemoryStore := ⟨.empty, [], some ⟨"save", 3⟩⟩
    let run := setting.run supply (.fresh .upgrade default) .none .empty store
    (∃ before turn after there record, run.steps = before ++ .visit turn :: after ∧
      RunStep.performAll before store = (before, .ok (), there) ∧
      (holdings there).execution? turn.execution = some record ∧
      record.lastCompletedPhase = some "prepare" ∧
      (Chronicle.ofSteps turn.execution before).commits.map Commit.phase = ["prepare"] ∧
      (Chronicle.ofSteps turn.execution before).committed ⊆
        ((holdings there).journal turn.execution).messages) ∧
    run.result = .error (.store (.unavailable "disk full")) ∧ run.steps.length = 6 := by
  intro file phases setting supply store run
  let entry : Entry := .fresh setting.workflow default .upgrade default .epoch
  have visits : run.visits.map Visit.phase = ["prepare", "apply"] := by decide +revert
  have fails : ((setting.account supply .none .empty entry).toOption.bind fun account =>
      account.steps[6]?.map fun step =>
        let made := (RunStep.performAll (account.steps.take 6) store).2
        (made.1, (step.perform made.2).1)) =
      some (.ok (), .error (.unavailable "disk full")) := by decide +revert
  obtain ⟨acts, stops⟩ := setting.run_durable supply (.fresh .upgrade default) .none .empty store
  refine ⟨?_, ?_⟩
  · obtain ⟨turn, among, named⟩ : ∃ turn ∈ run.visits, turn.phase = "apply" :=
      List.mem_map.mp (visits ▸ by simp)
    obtain ⟨step, taken, found⟩ := List.mem_filterMap.mp among
    cases step <;> cases found
    obtain ⟨before, after, split⟩ := List.append_of_mem taken
    obtain ⟨entry, place, phase, there, record, entered, _, here, same, carried, stored, _, _, last,
      committed⟩ := acts before turn after split
    obtain rfl := Except.ok.inj entered
    have second : setting.workflow.phases[1]? = some (.plain "apply" "upgrade") := rfl
    obtain rfl : place = 1 := Workflow.place_unique here second (same.symm.trans named)
    obtain ⟨order, logged⟩ := committed [] (.fresh rfl)
    exact ⟨before, turn, after, there, record, split, carried, stored, last, order, logged⟩
  · cases planned : setting.account supply .none .empty entry with
    | error error =>
        rw [planned] at fails
        cases fails
    | ok account =>
        rw [planned] at fails
        obtain ⟨step, sixth, answers⟩ := Option.map_eq_some_iff.mp fails
        obtain ⟨ok, failed⟩ := Prod.mk.inj answers
        obtain ⟨bound, rfl⟩ := List.getElem?_eq_some_iff.mp sixth
        have shape : account.steps =
            account.steps.take 6 ++ account.steps[6] :: account.steps.drop 7 := by
          rw [← List.drop_eq_getElem_cons bound, List.take_append_drop]
        have carried := (RunStep.performAll_prefix (account.steps.take 6) store).2 ok
        have ended := stops entry account _ _ _ _ _ _ rfl planned shape
          (Prod.ext carried (Prod.ext ok rfl)) (Prod.ext failed rfl)
        have whole : run.steps = account.steps.take 6 := congrArg EndedRun.steps ended
        refine ⟨congrArg EndedRun.result ended, ?_⟩
        rw [whole, List.length_take]
        omega

end PhasedUpgrade
