import PhasedUpgrade.Proofs.Run.Consistency
import PhasedUpgrade.Proofs.Run.Reach

/-!
# Runs of undertakings

A run with deterministic actors writes nothing but what the execution comes to anyway: each record
goes with a journal that the execution gets to the place behind it with, and the last one is the end
that it comes to. So wherever a run is cut off, the execution has got no further than it would have.
-/

namespace PhasedUpgrade

theorem Workflow.placeAfter_of_nameBefore {workflow : Workflow} {execution : Execution}
    {place : Nat} (inside : place ≤ workflow.phases.length)
    (last : execution.lastCompletedPhase = workflow.nameBefore place) :
    workflow.placeAfter execution = .ok place := by
  cases place with
  | zero =>
      unfold placeAfter
      rw [last]
      rfl
  | succ place =>
      have found := List.getElem?_eq_getElem inside
      rw [nameBefore_succ found] at last
      exact placeAfter_of_named found last

/-! ## Single phases -/

namespace Undertaking

variable {u : Undertaking} {stop place : Nat} {log : List Message} {planned : PlannedPhase}
  {course : Course}

variable (u stop) in
def heeded (supply : Supply) (planned : PlannedPhase) (course : Course) : Course :=
  (u.trial stop supply planned course).course.heeded supply
    (u.trial stop supply planned course).verdict

variable (u stop) in
def kept (supply : Supply) (planned : PlannedPhase) (course : Course) : Nat :=
  course.keptBy (u.trial stop supply planned course) (u.heeded stop supply planned course)

theorem MayTry.heeded_spec (h : u.MayTry stop place log planned course) (supply : Supply) :
    (u.heeded stop supply planned course).execution.gist =
        (u.trial stop supply planned course).verdict.gist planned.phase.name
          (u.setting.workflow.nameBefore place) ∧
      (u.heeded stop supply planned course).execution.configuration = u.configuration ∧
      (u.heeded stop supply planned course).bench.bus =
        ⟨u.setting.registry.catalog,
          (u.trial stop supply planned course).course.bench.bus.log⟩ := by
  have tried := Course.tryPhase_spec course supply (u.isLastWanted stop) planned
  obtain ⟨time, noted⟩ := tried.execution_eq
  refine ⟨Verdict.gist_heeded h.clean noted supply, ?_, ?_⟩
  · have same : (u.trial stop supply planned course).course.execution.configuration =
        course.execution.configuration := by
      rw [show (u.trial stop supply planned course).course.execution = _ from noted]
      cases (course.tryPhase supply (u.isLastWanted stop) planned).verdict <;> rfl
    rw [← h.configured, ← same]
    unfold heeded Course.heeded
    cases (u.trial stop supply planned course).verdict.state? <;> rfl
  · have shared := (course.tryPhase_madeFrom supply (u.isLastWanted stop)
      fun actor mem => Dispatch.mem_of_plan h.chosen mem).2
    have catalog : (u.trial stop supply planned course).course.bench.bus.catalog =
        u.setting.registry.catalog := by
      refine (congrArg (fun found => found.bus.catalog) shared).trans ?_
      rw [Surroundings.bus_behind]
      exact congrArg Bus.catalog h.bus_eq
    unfold heeded
    rw [Course.bus_heeded, ← catalog]

theorem MayTry.take_kept (h : u.MayTry stop place log planned course) (supply : Supply) :
    (u.heeded stop supply planned course).bench.bus.log.take
        (u.kept stop supply planned course) =
      if (u.trial stop supply planned course).verdict.commits then
        (u.trial stop supply planned course).course.bench.bus.log
      else log := by
  have tried := Course.tryPhase_spec course supply (u.isLastWanted stop) planned
  have whole : (u.heeded stop supply planned course).bench.bus.log =
      (u.trial stop supply planned course).course.bench.bus.log := by
    rw [(h.heeded_spec supply).2.2]
  have grown : (u.trial stop supply planned course).course.bench.bus.log =
      log ++ (u.trial stop supply planned course).visits.flatMap Visit.produced := by
    rw [show (u.trial stop supply planned course).course.bench.bus.log = _ from tried.log_eq,
      h.bus_eq]
    rfl
  unfold kept Course.keptBy
  split
  · rw [List.take_length, whole]
  · rw [whole, grown, h.bus_eq, List.take_left]

variable (u stop) in
/--
The record that is written behind a journal is of the configuration, and unless it is a completed
one the execution gets with the messages of the journal to the place that the record names.
-/
def Keeps (earlier later : RunStep) : Prop :=
  ∀ id journal record, earlier = .saveJournal id journal → later = .save record →
    record.configuration = u.configuration ∧
      (record.state ≠ .completed → ∃ place, u.setting.workflow.placeAfter record = .ok place ∧
        u.Reaches stop place journal.messages)

theorem MayTry.keeps (h : u.MayTry stop place log planned course)
    (reached : u.Reaches stop place log) (supply : Supply) (id : ExecutionId)
    (trail : List Audit.Event) :
    u.Keeps stop
      (.saveJournal id ⟨(u.heeded stop supply planned course).bench.bus.log.take
        (u.kept stop supply planned course), trail⟩)
      (.save (u.heeded stop supply planned course).execution) := by
  obtain ⟨gist, configured, _⟩ := h.heeded_spec supply
  have kept := h.take_kept supply
  have inside := (List.getElem?_eq_some_iff.mp h.found).1
  rintro _ _ _ ⟨⟩ ⟨⟩
  refine ⟨configured, fun goesOn => ?_⟩
  have state := congrArg Gist.state gist
  have last := congrArg Gist.lastCompletedPhase gist
  dsimp only
  rw [kept]
  cases verdict : (u.trial stop supply planned course).verdict with
  | stopped =>
      rw [verdict] at state
      exact absurd state goesOn
  | failed terminal retryable =>
      rw [verdict] at last
      exact ⟨place, Workflow.placeAfter_of_nameBefore inside.le last, reached⟩
  | inhibited count =>
      rw [verdict] at last
      exact ⟨place, Workflow.placeAfter_of_nameBefore inside.le last, reached⟩
  | reboot required =>
      rw [verdict] at last
      exact ⟨place + 1, Workflow.placeAfter_of_named h.found last,
        .behind supply reached h (by rw [verdict]; rfl)⟩
  | onward =>
      rw [verdict] at last
      exact ⟨place + 1, Workflow.placeAfter_of_named h.found last,
        .behind supply reached h (by rw [verdict]; rfl)⟩

/-! ## Phase after phase -/

theorem Keeps.of_ne {earlier later : RunStep}
    (h : ∀ id journal, earlier ≠ .saveJournal id journal) :
    u.Keeps stop earlier later :=
  fun id journal _ same _ => absurd same (h id journal)

theorem Keeps.isChain_append {first rest : List RunStep}
    (plain : ∀ id journal, .saveJournal id journal ∉ first) (h : rest.IsChain (u.Keeps stop)) :
    (first ++ rest).IsChain (u.Keeps stop) := by
  induction first with
  | nil => exact h
  | cons step others ih =>
      refine List.isChain_cons.mpr ⟨fun _ _ => .of_ne fun id journal same => ?_, ih ?_⟩
      · exact plain id journal (same ▸ List.mem_cons_self)
      · exact fun id journal mem => plain id journal (List.mem_cons_of_mem _ mem)

/-- The steps of a phase and those behind it, by what is written between them. -/
theorem keeps_phase {after : Course} {count : Nat} {rest : List RunStep}
    (kept : u.Keeps stop (.saveJournal after.execution.id ⟨after.bench.bus.log.take count,
      after.bench.trail⟩) (.save after.execution))
    (later : rest.IsChain (u.Keeps stop)) (visits : List Visit) :
    (visits.map RunStep.visit ++ after.persisted count ++ rest).IsChain (u.Keeps stop) := by
  have written : (after.persisted count ++ rest).IsChain (u.Keeps stop) :=
    List.isChain_cons_cons.mpr
      ⟨kept, List.isChain_cons.mpr ⟨fun _ _ => .of_ne fun _ _ => nofun, later⟩⟩
  rw [List.append_assoc]
  exact Keeps.isChain_append (by simp) written

/-- What a run comes to that goes through the phases from a place on that has been reached. -/
structure Ended (u : Undertaking) (stop : Nat) (steps : List RunStep) (outcome : RunOutcome)
    (record : Execution) (messages : List Message) : Prop where
  written : ∃ earlier id journal, steps = earlier ++ [.saveJournal id journal, .save record] ∧
    id = record.id ∧ journal.messages = messages
  keeps : steps.IsChain (u.Keeps stop)
  ends : (∃ phase required, outcome = .awaitingReboot phase required) ∨
    ∃ place log, u.Reaches stop place log ∧
      u.EndsAt stop place log outcome record.gist messages

theorem MayTry.ended (h : u.MayTry stop place log planned course)
    (reached : u.Reaches stop place log) (supply : Supply) {outcome : RunOutcome}
    (ending : (u.trial stop supply planned course).verdict.outcome? planned.phase.name =
      some outcome) :
    u.Ended stop
      ((u.trial stop supply planned course).visits.map .visit ++
        (u.heeded stop supply planned course).persisted (u.kept stop supply planned course))
      outcome (u.heeded stop supply planned course).execution
      ((u.heeded stop supply planned course).bench.bus.log.take
        (u.kept stop supply planned course)) where
  written := ⟨_, _, _, rfl, rfl, rfl⟩
  keeps := by
    have steps := keeps_phase (h.keeps reached supply _ _) List.isChain_nil
      (u.trial stop supply planned course).visits
    rwa [List.append_nil] at steps
  ends := by
    cases on : (u.trial stop supply planned course).verdict.leadsOn with
    | false =>
        refine .inr ⟨place, log, reached, ?_⟩
        rw [(h.heeded_spec supply).1, h.take_kept supply]
        exact .ended supply h on ending
    | true =>
        cases verdict : (u.trial stop supply planned course).verdict <;> rw [verdict] at on ending
        case reboot required => exact .inl ⟨_, required, (Option.some.inj ending).symm⟩
        case onward => cases ending
        all_goals cases on

theorem Ended.of_later {steps : List RunStep} {outcome : RunOutcome} {record : Execution}
    {messages : List Message} (h : u.Ended stop steps outcome record messages)
    {after : Course} {count : Nat}
    (kept : u.Keeps stop (.saveJournal after.execution.id ⟨after.bench.bus.log.take count,
      after.bench.trail⟩) (.save after.execution)) (visits : List Visit) :
    u.Ended stop (visits.map .visit ++ after.persisted count ++ steps) outcome record messages where
  written := by
    obtain ⟨earlier, id, journal, rfl, same⟩ := h.written
    exact ⟨visits.map .visit ++ after.persisted count ++ earlier, id, journal, by simp, same⟩
  keeps := keeps_phase kept h.keeps visits
  ends := h.ends

theorem runPhases_ended {plan : List PlannedPhase} (supply : Supply)
    (inside : stop ≤ u.setting.workflow.phases.length)
    (planned : u.setting.plan u.filters place stop = .ok plan) (mayRun : course.MayRun plan)
    (configured : course.execution.configuration = u.configuration)
    (bus_eq : course.bench.bus = ⟨u.setting.registry.catalog, log⟩)
    (clean : course.execution.gist = ⟨course.execution.state,
      u.setting.workflow.nameBefore place, none, false, false⟩)
    (reached : u.Reaches stop place log) :
    ∃ steps summaries outcome last messages,
      Course.runPhases supply (u.isLastWanted stop) plan course =
        ⟨steps, .ok (summaries, outcome, last)⟩ ∧
      u.Ended stop steps outcome last.execution messages := by
  -- Wherever the run goes on, it has got there with the log on its bus and notes no failure.
  induction plan generalizing course place log with
  | nil =>
      have behind : stop ≤ place := Setting.le_of_plan_nil planned inside
      refine ⟨_, _, _, _, log, Course.runPhases_nil mayRun.completed_mem _, ?_⟩
      have gist : (course.changed supply .completed).execution.gist =
          { course.execution.gist with state := .completed } := rfl
      exact {
        written := ⟨[], _, _, rfl, rfl, by
          show course.bench.bus.log.take _ = log
          rw [List.take_length, bus_eq]⟩
        keeps := by
          refine keeps_phase ?_ List.isChain_nil []
          rintro _ _ _ ⟨⟩ ⟨⟩
          exact ⟨configured, fun goesOn => absurd rfl goesOn⟩
        ends := .inr ⟨place, log, reached, by
          rw [gist, clean]
          exact .whole behind⟩ }
  | cons first rest ih =>
      obtain ⟨before, found, chosen, later⟩ := Setting.plan_cons planned
      have mayTry : u.MayTry stop place log first course :=
        ⟨before, found, chosen, configured, bus_eq, by rw [clean, mayRun.running]⟩
      have kept := mayTry.keeps reached supply
        (u.heeded stop supply first course).execution.id
          (u.heeded stop supply first course).bench.trail
      obtain ⟨gist, configured', bus'⟩ := mayTry.heeded_spec supply
      rcases Course.runPhases_cons_cases mayRun.running rfl rest with
        ⟨outcome, ending, ran⟩ | ⟨onward, goesOn, ran⟩
      · exact ⟨_, _, outcome, _, _, ran, mayTry.ended reached supply ending⟩
      · have onward : (u.trial stop supply first course).verdict = .onward := onward
        have state : (u.heeded stop supply first course).execution.state = .running := goesOn
        have on : (u.trial stop supply first course).verdict.leadsOn = true := by
          rw [onward]
          rfl
        rw [onward] at gist
        obtain ⟨steps, summaries, outcome, last, messages, ranOn, ended⟩ :=
          ih later (.inl state) configured' bus'
            (by rw [gist, state, Workflow.nameBefore_succ found]; rfl)
            (.behind supply reached mayTry on)
        refine ⟨_, (u.trial stop supply first course).result.summary :: summaries, outcome, last,
          messages, ?_, ended.of_later kept (u.trial stop supply first course).visits⟩
        rw [ran]
        unfold Undertaking.heeded Undertaking.trial at ranOn
        rw [ranOn]
        rfl

end Undertaking

/-! ## Whole runs -/

theorem Workflow.lastCompletedPhase_of_placeAfter {workflow : Workflow} {execution : Execution}
    {place : Nat} (h : workflow.placeAfter execution = .ok place) :
    execution.lastCompletedPhase = workflow.nameBefore place := by
  cases place with
  | succ place =>
      obtain ⟨phase, found, named⟩ := phase_of_placeAfter h
      rw [named, nameBefore_succ found]
  | zero =>
      unfold placeAfter at h
      cases last : execution.lastCompletedPhase with
      | none => rfl
      | some name =>
          rw [last] at h
          simp only at h
          cases placed : workflow.position? name <;> rw [placed] at h <;> cases h

section

variable {u : Undertaking} {stop : Nat} {log done : List RunStep} {entry : Entry}
  {written : Execution}

theorem Enters.clean {workflow : Workflow} (enters : Enters workflow log entry)
    (opens : entry.Opens written) :
    written.gist = ⟨written.state, entry.execution.lastCompletedPhase, none, false, false⟩ ∧
      written.configuration = entry.execution.configuration := by
  cases enters with
  | fresh _ _ _ _ =>
      cases opens with
      | begun _ _ _ => exact ⟨rfl, rfl⟩
      | resumed resumes _ _ => cases resumes
  | resumed _ _ =>
      cases opens with
      | begun fresh _ _ => cases fresh
      | resumed _ _ _ => exact ⟨rfl, rfl⟩

/--
Behind its first steps a run still notes no failure, and has the place of its entry before it.
-/
theorem Enters.clean_of_opened {workflow : Workflow} {course : Course}
    (enters : Enters workflow log entry)
    (sound : (Chronicle.ofSteps entry.execution.id log).Sound workflow)
    (opens : entry.Opens written) (continues : course.Continues written entry.journal.messages) :
    course.execution.gist =
        ⟨course.execution.state, workflow.nameBefore entry.start, none, false, false⟩ ∧
      course.execution.configuration = entry.execution.configuration := by
  obtain ⟨time, same⟩ := continues.execution_eq
  obtain ⟨clean, kept⟩ := enters.clean opens
  have last := Workflow.lastCompletedPhase_of_placeAfter (enters.placeAfter_eq sound)
  constructor
  · rw [← last, same]
    exact congrArg (fun gist => { gist with state := course.execution.state }) clean
  · rw [same]
    exact kept

/-- Whether a run is entered where the execution of an undertaking has got to. -/
structure Undertaking.LetsIn (u : Undertaking) (stop : Nat) (log : List RunStep) (entry : Entry) :
    Prop where
  enters : Enters u.setting.workflow log entry
  stopped : u.setting.workflow.stopPlace u.options.untilPhase = .ok stop
  sound : (Chronicle.ofSteps entry.execution.id log).Sound u.setting.workflow
  configured : entry.execution.configuration = u.configuration
  reached : u.Reaches stop entry.start entry.journal.messages

theorem Undertaking.LetsIn.account_ended {supply : Supply} {answers : Answers}
    {account : Account RunResult} (h : u.LetsIn stop log entry)
    (planned : u.setting.account supply u.options answers entry = .ok account) :
    (∃ bindings error, account = ⟨Course.setting bindings, .error error⟩) ∨
    ∃ bindings written steps result last messages,
      account = ⟨Course.setting bindings ++ [.save written] ++ steps, .ok result⟩ ∧
      u.Ended stop steps result.outcome last messages := by
  obtain ⟨enters, stopped, sound, configured, reached⟩ := h
  obtain ⟨stop', plan, stopped', phases, rfl⟩ := Setting.exists_plan planned
  obtain rfl : stop = stop' := Except.ok.inj (stopped.symm.trans stopped')
  rw [configured] at phases
  have inside := (Workflow.stopPlace_spec stopped).1
  have logged : (entry.bench u.setting.registry.catalog answers).bus.log =
      entry.journal.messages := rfl
  rcases Course.opening_cases logged with
    ⟨bindings, written, course, opened, opens, continues, state⟩ | ⟨bindings, _, opened⟩
  · have mayRun : course.MayRun plan := Course.mayRun_of_opened state
    obtain ⟨gist, kept⟩ := enters.clean_of_opened sound opens continues
    have bus := congrArg Surroundings.bus (Course.surroundings_of_opened supply opened)
    obtain ⟨steps, summaries, outcome, final, messages, ran, ended⟩ :=
      Undertaking.runPhases_ended supply inside phases mayRun
        (kept.trans configured) bus gist reached
    refine .inr ⟨bindings, written, steps, ⟨final.execution.id, final.execution.kind,
      final.execution.state, outcome, summaries, final.bench.bus.reports⟩, final.execution,
      messages, ?_, ended⟩
    rw [Course.account_eq opened, show u.setting.workflow.isLastWanted u.options.untilPhase stop =
      u.isLastWanted stop from rfl, ran]
    rfl
  · exact .inl ⟨bindings, _, Course.account_eq_error opened _⟩

/-- In all that a run may write each record goes with the journal before it. -/
theorem Undertaking.LetsIn.account_keeps {supply : Supply} {answers : Answers}
    {account : Account RunResult} (h : u.LetsIn stop log entry)
    (planned : u.setting.account supply u.options answers entry = .ok account) :
    account.steps.IsChain (u.Keeps stop) := by
  rcases h.account_ended planned with
    ⟨bindings, error, rfl⟩ | ⟨bindings, written, steps, result, last, messages, rfl, ended⟩
  · have alone : (Course.setting bindings ++ []).IsChain (u.Keeps stop) :=
      Keeps.isChain_append (by simp [Course.setting]) List.isChain_nil
    rwa [List.append_nil] at alone
  · exact Keeps.isChain_append (by simp [Course.setting]) ended.keeps

/-! ## However far a run is carried out -/

/-- Whether what has become of an execution is what it comes to anyway. -/
def Chronicle.OnTrack (u : Undertaking) (stop : Nat) (chronicle : Chronicle) : Prop :=
  ∀ execution, chronicle.execution? = some execution →
    execution.configuration = u.configuration ∧
      (execution.state ≠ .completed →
        u.Reaches stop chronicle.commits.length chronicle.committed)

/-- Runs are let in where the execution has got to. -/
theorem Enters.reaches (enters : Enters u.setting.workflow log entry)
    (sound : (Chronicle.ofSteps entry.execution.id log).Sound u.setting.workflow)
    (track : (Chronicle.ofSteps entry.execution.id log).OnTrack u stop) :
    u.Reaches stop entry.start entry.journal.messages ∧
      (entry.resumes = true → entry.execution.configuration = u.configuration) := by
  obtain ⟨place, messages⟩ := enters.behind sound
  cases enters with
  | fresh _ _ _ _ => exact ⟨.start, nofun⟩
  | @resumed execution start stored placed =>
      obtain ⟨configured, reached⟩ := track execution stored
      rw [place, messages]
      exact ⟨reached (Workflow.not_completed_of_resumePlace placed), fun _ => configured⟩

/-- If the records of a run go with their journals, it stays on track however far it is taken. -/
theorem Progress.onTrack {standing : Standing}
    (h : Progress u.setting.workflow entry done standing) (letsIn : u.LetsIn stop log entry)
    (track : (Chronicle.ofSteps entry.execution.id log).OnTrack u stop)
    (keeps : done.IsChain (u.Keeps stop)) :
    (Chronicle.ofSteps entry.execution.id (log ++ done)).OnTrack u stop := by
  obtain ⟨enters, _, sound, configured, here⟩ := letsIn
  rw [(enters.behind sound).1, (enters.behind sound).2] at here
  induction h with
  | start => simpa using track
  | binding name value _ ih =>
      rw [Chronicle.ofSteps_append_concat]
      exact ih (List.isChain_append.mp keeps).1
  | @enter done written progress opens ih =>
      have found : Chronicle.ofSteps entry.execution.id (log ++ done) = _ :=
        (progress.sound enters sound).2
      have commits := Chronicle.commits_saved_of_same (enters.lastPhase_eq opens sound)
      rw [Chronicle.ofSteps_append_concat, Chronicle.note_save opens.id_eq, found]
      rintro execution ⟨⟩
      refine ⟨(enters.clean opens).2.trans configured, fun _ => ?_⟩
      rw [Chronicle.committed, commits]
      exact here
  | visit progress found turn ih =>
      have own := turn.execution_eq.trans progress.standing_of
      rw [Chronicle.ofSteps_append_concat, Chronicle.note_visit own]
      exact ih (List.isChain_append.mp keeps).1
  | @journal _ attempt _ journal _ progress ends ih =>
      have own : attempt.written.id = entry.execution.id := progress.standing_of
      rw [Chronicle.ofSteps_append_concat, own, Chronicle.note_saveJournal]
      exact ih (List.isChain_append.mp keeps).1
  | @record done attempt next kept goesOn progress ih =>
      obtain ⟨before, tries, ends, messages⟩ := progress.sound enters sound
      -- With which messages the execution has got so far is told by the journal before the record.
      obtain ⟨first, id, journal, rfl, same⟩ := progress.of_deciding
      have link := (List.isChain_append.mp keeps).2.2 _
        (List.getLast?_concat ..) (.save next) rfl
      obtain ⟨configured, reached⟩ := link id journal next rfl rfl
      rw [Chronicle.ofSteps_append_concat, Chronicle.note_save progress.standing_of.2]
      rintro execution ⟨⟩
      refine ⟨configured, fun goesOn => ?_⟩
      obtain ⟨place, counted, reached⟩ := reached goesOn
      have after := (tries.recorded before ends messages .empty).1
      rw [after.placeAfter_eq rfl] at counted
      obtain rfl := Except.ok.inj counted
      rw [tries.committed_saved before ends, ← same]
      exact reached

end

end PhasedUpgrade
