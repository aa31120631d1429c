import PhasedUpgrade.Proofs.Audit.Coverage
import PhasedUpgrade.Proofs.Run.Undertaking

/-!
# Audit trails of executions

A run begins with the audit trail of the journal that it takes up and only ever appends to it. Each
journal that it writes holds the trail up to then, whatever becomes of the phase; what was recorded
behind the last journal is lost if the run is cut off, and the next one goes on from that journal.
-/

namespace PhasedUpgrade

open LawfulStore (holdings)

/-! ## Turns of actors -/

/-- Whether some events tell of the end of a visit. -/
def Visit.ToldIn (turn : Visit) (events : List Audit.Event) : Prop :=
  ∃ event ∈ events, event.execution = turn.execution ∧ event.phase = some turn.phase ∧
    event.actor = some turn.actor ∧ event.action = "actor_finished" ∧
    event.result = turn.result.label

theorem Visit.ToldIn.mono {turn : Visit} {events later : List Audit.Event}
    (h : turn.ToldIn events) (goesOn : Audit.Continues events later) : turn.ToldIn later := by
  obtain ⟨event, mem, tells⟩ := h
  exact ⟨event, goesOn.kept.subset mem, tells⟩

/-- What actors ask for is not audited, but only that they begin and end. -/
theorem Program.trail_run {α : Type} (supply : Supply) (actor : Contract) (phase : String)
    (program : Program α) (bench : Workbench) :
    (program.run supply actor phase bench).2.1.trail = bench.trail := by
  induction program generalizing bench with
  | done value => rfl
  | produce draft next ih =>
      have same : (bench.produce supply actor phase draft).2.trail = bench.trail := by
        unfold Workbench.produce
        cases bench.bus.produce actor phase draft (supply.time bench.used) <;> rfl
      exact (ih _ _).trans same
  | consume typeName next ih => exact ih _ _
  | answer heading key next ih => exact ih _ _
  | recordAnswer heading key value next ih => exact ih _
  | note key value next ih => exact ih _

/-! ## Steps with their trails -/

namespace RunStep

/--
Steps that are taken from one trail on and end at another. The trail only grows; a visit is told in
it, and a journal holds it.
-/
inductive Trails : List Audit.Event → List RunStep → List Audit.Event → Prop
  | nil {trail last : List Audit.Event} (goesOn : Audit.Continues trail last) : Trails trail [] last
  | setVariable {trail last : List Audit.Event} {rest : List RunStep} (name value : String) :
      Trails trail rest last → Trails trail (.setVariable name value :: rest) last
  | save {trail last : List Audit.Event} {rest : List RunStep} (execution : Execution) :
      Trails trail rest last → Trails trail (.save execution :: rest) last
  | visit {trail later last : List Audit.Event} {rest : List RunStep} {turn : Visit}
      (goesOn : Audit.Continues trail later) (told : turn.ToldIn later) :
      Trails later rest last → Trails trail (.visit turn :: rest) last
  | saveJournal {trail last : List Audit.Event} {rest : List RunStep} (id : ExecutionId)
      {journal : Journal} (goesOn : Audit.Continues trail journal.audit) :
      Trails journal.audit rest last → Trails trail (.saveJournal id journal :: rest) last

namespace Trails

variable {trail later last : List Audit.Event} {steps first second : List RunStep}

theorem continues (h : Trails trail steps last) : Audit.Continues trail last := by
  induction h with
  | nil goesOn => exact goesOn
  | setVariable _ _ _ ih => exact ih
  | save _ _ ih => exact ih
  | visit goesOn _ _ ih => exact goesOn.trans ih
  | saveJournal _ goesOn _ ih => exact goesOn.trans ih

theorem from_earlier (goesOn : Audit.Continues trail later) (h : Trails later steps last) :
    Trails trail steps last := by
  induction h with
  | nil rest => exact .nil (goesOn.trans rest)
  | setVariable name value _ ih => exact .setVariable name value (ih goesOn)
  | save execution _ ih => exact .save execution (ih goesOn)
  | visit rest told h _ => exact .visit (goesOn.trans rest) told h
  | saveJournal id rest h _ => exact .saveJournal id (goesOn.trans rest) h

theorem append (h₁ : Trails trail first later) (h₂ : Trails later second last) :
    Trails trail (first ++ second) last := by
  induction h₁ with
  | nil goesOn => exact h₂.from_earlier goesOn
  | setVariable name value _ ih => exact .setVariable name value (ih h₂)
  | save execution _ ih => exact .save execution (ih h₂)
  | visit goesOn told _ ih => exact .visit goesOn told (ih h₂)
  | saveJournal id goesOn _ ih => exact .saveJournal id goesOn (ih h₂)

theorem to_later (h : Trails trail steps later) (goesOn : Audit.Continues later last) :
    Trails trail steps last := by
  have whole := h.append (.nil goesOn)
  rwa [List.append_nil] at whole

theorem exists_middle (h : Trails trail (first ++ second) last) :
    ∃ middle, Trails trail first middle ∧ Trails middle second last := by
  induction first generalizing trail with
  | nil => exact ⟨trail, .nil (.refl trail), h⟩
  | cons step rest ih =>
      cases h with
      | setVariable name value h =>
          obtain ⟨middle, one, two⟩ := ih h
          exact ⟨middle, .setVariable name value one, two⟩
      | save execution h =>
          obtain ⟨middle, one, two⟩ := ih h
          exact ⟨middle, .save execution one, two⟩
      | visit goesOn told h =>
          obtain ⟨middle, one, two⟩ := ih h
          exact ⟨middle, .visit goesOn told one, two⟩
      | saveJournal id goesOn h =>
          obtain ⟨middle, one, two⟩ := ih h
          exact ⟨middle, .saveJournal id goesOn one, two⟩

theorem told (h : Trails trail steps last) {turn : Visit} (mem : .visit turn ∈ steps) :
    turn.ToldIn last := by
  induction h with
  | nil _ => cases mem
  | setVariable _ _ _ ih => exact ih (by simpa using mem)
  | save _ _ ih => exact ih (by simpa using mem)
  | saveJournal _ _ _ ih => exact ih (by simpa using mem)
  | visit _ told h ih =>
      rcases List.mem_cons.mp mem with same | mem
      · obtain rfl := RunStep.visit.inj same
        exact told.mono h.continues
      · exact ih mem

theorem settings (trail : List Audit.Event) (bindings : List (String × String)) :
    Trails trail (Course.setting bindings) trail := by
  induction bindings with
  | nil => exact .nil (.refl trail)
  | cons first rest ih => exact .setVariable first.1 first.2 ih

end Trails

end RunStep

open RunStep (Trails)

/-! ## Courses of runs -/

section

variable (supply : Supply)

theorem Visit.trails_make (execution : Execution) (phase : String) (actor : Actor)
    (bench : Workbench) :
    Audit.Continues bench.trail (make supply execution phase actor bench).2.trail ∧
      (make supply execution phase actor bench).1.ToldIn
        (make supply execution phase actor bench).2.trail := by
  let begun := bench.record supply (entry execution phase actor.name "actor_started" "")
  let ended := Program.run supply actor.toContract phase
    (actor.behave ⟨actor.name, phase, execution⟩) begun
  have same : ended.2.1.trail = begun.trail := Program.trail_run ..
  have started : Audit.Continues bench.trail begun.trail := .record ..
  have finished : Audit.Continues ended.2.1.trail
      (make supply execution phase actor bench).2.trail := .record ..
  rw [same] at finished
  refine ⟨started.trans finished, _, List.mem_append_right _ (List.mem_singleton_self _), ?_⟩
  exact ⟨rfl, rfl, rfl, rfl, rfl⟩

theorem Visit.trails_makeAll (execution : Execution) (phase : String)
    (goesOn : ActorResult → Bool) (actors : List Actor) (bench : Workbench) :
    Trails bench.trail ((makeAll supply execution phase goesOn actors bench).1.map .visit)
      (makeAll supply execution phase goesOn actors bench).2.trail := by
  induction actors generalizing bench with
  | nil => exact .nil (.refl _)
  | cons actor rest ih =>
      obtain ⟨grows, told⟩ := trails_make supply execution phase actor bench
      simp only [makeAll]
      split
      · exact .visit grows told (ih _)
      · exact .visit grows told (.nil (.refl _))

namespace Course

variable {course : Course} {plan : List PlannedPhase}

theorem continues_changed (course : Course) (state : ExecutionState) :
    Audit.Continues course.bench.trail (course.changed supply state).bench.trail :=
  .record ..

theorem continues_heeded (course : Course) (verdict : Verdict) :
    Audit.Continues course.bench.trail (course.heeded supply verdict).bench.trail := by
  unfold heeded
  cases verdict.state? with
  | none => exact .refl _
  | some state => exact course.continues_changed supply state

theorem trails_tryPhase (course : Course) (isLastWanted : Phase → Bool)
    (planned : PlannedPhase) :
    let trial := course.tryPhase supply isLastWanted planned
    Trails course.bench.trail (trial.visits.map .visit) trial.course.bench.trail := by
  intro trial
  let begun := course.record supply (some planned.phase.name) "phase_started" ""
  have started : Audit.Continues course.bench.trail begun.bench.trail := .record ..
  have visits := Visit.trails_makeAll supply course.execution planned.phase.name
    (ActorResult.goesOn planned.phase.errorPolicy) planned.actors begun.bench
  exact (visits.to_later (.record ..)).from_earlier started

theorem trails_persisted {trail : List Audit.Event}
    (grows : Audit.Continues trail course.bench.trail) (count : Nat) :
    Trails trail (course.persisted count) course.bench.trail :=
  .saveJournal _ grows (.save _ (.nil (.refl _)))

theorem trails_runPhases (mayRun : course.MayRun plan) (isLastWanted : Phase → Bool) :
    ∃ last, Trails course.bench.trail (runPhases supply isLastWanted plan course).steps last := by
  induction plan generalizing course with
  | nil =>
      rw [runPhases_nil mayRun.completed_mem]
      exact ⟨_, trails_persisted (course.continues_changed supply .completed) _⟩
  | cons planned rest ih =>
      have visits := trails_tryPhase supply course isLastWanted planned
      generalize tried : course.tryPhase supply isLastWanted planned = trial at visits
      have whole := visits.append (trails_persisted
        (trial.course.continues_heeded supply trial.verdict)
        (course.keptBy trial (trial.course.heeded supply trial.verdict)))
      rcases runPhases_cons_cases mayRun.running tried rest with
        ⟨outcome, _, ran⟩ | ⟨_, still, ran⟩
      · rw [ran]
        exact ⟨_, whole⟩
      · obtain ⟨last, later⟩ := ih (.inl still)
        rw [ran]
        exact ⟨last, whole.append later⟩

theorem trails_account {entry : Entry} {bench : Workbench}
    (logged : bench.bus.log = entry.journal.messages) (isLastWanted : Phase → Bool) :
    ∃ last, Trails bench.trail (account supply entry bench isLastWanted plan).steps last := by
  rcases opening_cases logged with
    ⟨bindings, written, course, opened, _, _, state⟩ | ⟨bindings, _, opened⟩
  · have begun : Audit.Continues bench.trail course.bench.trail :=
      bench_of_opened supply opened (P := fun later => Audit.Continues bench.trail later.trail)
        (.refl _) fun _ _ grows => grows.trans (.record ..)
    obtain ⟨last, later⟩ := trails_runPhases supply (mayRun_of_opened state) isLastWanted
    rw [account_eq opened, List.append_assoc]
    exact ⟨last, (Trails.settings bench.trail bindings).append (.save written
      (later.from_earlier begun))⟩
  · rw [account_eq_error opened]
    exact ⟨_, .settings bench.trail bindings⟩

end Course

/-- A planned run goes on from the trail of the journal that it takes up. -/
theorem Setting.account_trails {setting : Setting} {supply : Supply} {options : RunOptions}
    {answers : Answers} {entry : Entry} {account : Account RunResult}
    (h : setting.account supply options answers entry = .ok account) :
    ∃ last, Trails entry.journal.audit account.steps last := by
  obtain ⟨stop, plan, _, planned, rfl⟩ := Setting.exists_plan h
  exact Course.trails_account supply (entry.log_bench setting.registry.catalog answers) _

end

/-! ## Journals -/

namespace RunStep

def journals (id : ExecutionId) (steps : List RunStep) : List Journal :=
  steps.filterMap fun
    | .saveJournal other journal => if other = id then some journal else none
    | _ => none

variable {id : ExecutionId} {first second : List RunStep}

theorem journals_append :
    journals id (first ++ second) = journals id first ++ journals id second := by
  simp [journals]

theorem journals_of_not_concerns {steps : List RunStep} (h : ∀ step ∈ steps, ¬ step.concerns id) :
    journals id steps = [] := by
  refine List.filterMap_eq_nil_iff.mpr fun step mem => ?_
  cases step with
  | saveJournal other journal => exact if_neg (h _ mem)
  | setVariable _ _ | visit _ | save _ => rfl

end RunStep

theorem Chronicle.journal_ofSteps (id : ExecutionId) (steps : List RunStep) :
    (ofSteps id steps).journal = (RunStep.journals id steps).getLast?.getD .empty := by
  induction steps using List.reverseRecOn with
  | nil => rfl
  | append_singleton steps step ih =>
      rw [ofSteps_concat, RunStep.journals_append]
      cases step with
      | saveJournal other journal =>
          by_cases own : other = id <;> simp [note, RunStep.journals, own, ih]
      | setVariable name value => simpa [note, RunStep.journals] using ih
      | save execution =>
          by_cases own : execution.id = id <;> simp [note, RunStep.journals, own, ih, saved]
      | visit turn =>
          by_cases own : turn.execution = id <;> simp [note, RunStep.journals, own, ih]

/-- The journals among some steps go on from the trail that the steps are taken from. -/
theorem RunStep.Trails.isChain {trail last : List Audit.Event} {steps : List RunStep}
    (h : Trails trail steps last) {id : ExecutionId}
    (own : ∀ step ∈ steps, ∀ other, step.concerns other → other = id) :
    (trail :: (journals id steps).map Journal.audit).IsChain Audit.Continues := by
  induction h with
  | nil _ => exact List.isChain_singleton _
  | setVariable _ _ _ ih => exact ih (List.forall_mem_cons.mp own).2
  | save _ _ ih => exact ih (List.forall_mem_cons.mp own).2
  | visit goesOn _ _ ih =>
      exact (ih (List.forall_mem_cons.mp own).2).imp_head fun next => goesOn.trans next
  | @saveJournal trail last rest other journal goesOn _ ih =>
      obtain ⟨here, others⟩ := List.forall_mem_cons.mp own
      obtain rfl : other = id := here other rfl
      have first : journals other (.saveJournal other journal :: rest) =
          journal :: journals other rest := by simp [journals]
      rw [first, List.map_cons]
      exact .cons_cons goesOn (ih others)

section

variable {workflow : Workflow} {log : List RunStep} {entry : Entry}

theorem Enters.audit_eq (enters : Enters workflow log entry)
    (sound : (Chronicle.ofSteps entry.execution.id log).Sound workflow) :
    entry.journal.audit = (Chronicle.ofSteps entry.execution.id log).journal.audit := by
  cases enters with
  | @fresh id new kind configuration time =>
      have blank : Chronicle.ofSteps id log = .empty := sound.blank new
      show Journal.empty.audit = (Chronicle.ofSteps id log).journal.audit
      rw [blank]
      rfl
  | resumed _ _ => rfl

theorem Chronicle.getLast?_audits (id : ExecutionId) (steps : List RunStep) :
    ([] :: (RunStep.journals id steps).map Journal.audit).getLast? =
      some (ofSteps id steps).journal.audit := by
  rw [journal_ofSteps, List.getLast?_cons, List.getLast?_map]
  cases (RunStep.journals id steps).getLast? <;> rfl

variable {σ : Type} [LawfulStore σ] {store : σ}

/-- A call goes on from the trail that the store holds of its execution. -/
theorem Call.make_trails {call : Call} (held : holdings store = .ofSteps log)
    (new : call.NamesNew store) (sound : ∀ id, (Chronicle.ofSteps id log).Sound workflow) :
    (∃ trail last, Trails trail (call.make workflow store).1.steps last) ∧
      ∀ id, ((Chronicle.ofSteps id log).journal.audit ::
        (RunStep.journals id (call.make workflow store).1.steps).map Journal.audit).IsChain
          Audit.Continues := by
  obtain ⟨same, enters⟩ := Setting.entry_spec workflow held new
  rcases call.make_eq workflow store with
    ⟨error, out, _⟩ | ⟨entry, account, after, entered, planned, made⟩
  · rw [out]
    exact ⟨⟨[], [], .nil (.refl _)⟩, fun id => List.isChain_singleton _⟩
  · rw [entered] at same enters
    have enters := enters entry rfl
    obtain ⟨part, _⟩ := call.carryOut_spec account same
    obtain ⟨standing, progress⟩ := Setting.account_progress planned part
    obtain ⟨last, whole⟩ := Setting.account_trails planned
    obtain ⟨rest, split⟩ := part
    -- Where the call was cut off its steps have come to some trail on the way to the last one.
    rw [← split] at whole
    obtain ⟨middle, first, _⟩ := whole.exists_middle
    rw [made]
    refine ⟨⟨_, _, first⟩, fun id => ?_⟩
    by_cases own : id = entry.execution.id
    · subst own
      rw [← enters.audit_eq (sound _)]
      exact first.isChain progress.own
    · have none := RunStep.journals_of_not_concerns fun step mem concerns =>
        own (progress.own step mem id concerns)
      rw [none]
      exact List.isChain_singleton _

namespace History

variable {episodes : List Episode}

/-- Each call goes on from the trail that those before it have left in the store. -/
theorem trails (history : History workflow episodes store) :
    (∀ episode ∈ episodes, ∃ trail last, Trails trail episode.steps last) ∧
      ∀ id, ([] :: (RunStep.journals id (Episode.allSteps episodes)).map Journal.audit).IsChain
        Audit.Continues := by
  induction history with
  | empty _ => exact ⟨List.forall_mem_nil _, fun id => List.isChain_singleton []⟩
  | idle _ _ ih => exact ih
  | @call episodes store call history new ih =>
      obtain ⟨each, chains⟩ := ih
      obtain ⟨steps, later⟩ := call.make_trails history.holdings_eq new history.runs.sound
      refine ⟨List.forall_mem_append.mpr ⟨each, List.forall_mem_singleton.mpr steps⟩, fun id => ?_⟩
      rw [allSteps_concat, RunStep.journals_append, List.map_append, ← List.cons_append,
        List.isChain_append]
      obtain ⟨here, rest⟩ := List.isChain_cons.mp (later id)
      refine ⟨chains id, rest, fun last isLast next isNext => ?_⟩
      rw [Chronicle.getLast?_audits] at isLast
      obtain rfl := Option.some.inj isLast
      exact here next isNext

/--
However the calls went and wherever they were cut off, at every moment between two steps the trail
of the journal that the store holds has its links in order, and each journal that is written has the
trails of those before it as first parts of its own. Within a call a journal tells of all visits
before it, no matter whether their phase has been committed.
-/
theorem audit_goes_on (history : History workflow episodes store) (id : ExecutionId) :
    let steps := Episode.allSteps episodes
    (holdings store = .ofSteps steps ∧ ∀ moment, moment <+: steps →
      Audit.verify ((Holdings.ofSteps moment).journal id).audit = .ok ()) ∧
    (RunStep.journals id steps).Pairwise (fun earlier later => earlier.audit <+: later.audit) ∧
    ∀ episode ∈ episodes, ∀ before journal after,
      episode.steps = before ++ .saveJournal id journal :: after →
        ∀ turn, .visit turn ∈ before → turn.ToldIn journal.audit := by
  intro steps
  obtain ⟨each, chains⟩ := history.trails
  obtain ⟨start, pairs⟩ := List.pairwise_cons.mp (List.isChain_iff_pairwise.mp (chains id))
  have intact : ∀ journal ∈ RunStep.journals id steps, Audit.verify journal.audit = .ok () :=
    fun journal mem => (start _ (List.mem_map_of_mem mem)).verified rfl
  refine ⟨⟨history.holdings_eq, ?_⟩, (List.pairwise_map.mp pairs).imp Audit.Continues.kept, ?_⟩
  · rintro moment ⟨rest, whole⟩
    show Audit.verify (Chronicle.ofSteps id moment).journal.audit = .ok ()
    rw [Chronicle.journal_ofSteps]
    cases last : (RunStep.journals id moment).getLast? with
    | none => rfl
    | some journal =>
        refine intact journal ?_
        rw [← whole, RunStep.journals_append]
        exact List.mem_append_left _ (List.mem_of_getLast? last)
  · intro episode mem before journal after split turn visits
    obtain ⟨trail, last, steps⟩ := each episode mem
    rw [split] at steps
    obtain ⟨middle, first, second⟩ := steps.exists_middle
    cases second with
    | saveJournal _ goesOn _ => exact (first.told visits).mono goesOn

/-- The messages of a failed phase are cut from the journal; its audit entries are kept. -/
theorem audit_goes_on_behind_failure :
    let fail : View → Task Unit := fun _ => do
      Task.report (.inhibitor "old" "too old")
      throw (.unexpected ["no facts"])
    let idle : View → Task Unit := fun _ => pure ()
    let workflow := Workflow.single (.plain "apply" "upgrade")
    let first := (Call.probing fail (.fresh .upgrade default) none).make workflow MemoryStore.empty
    let second := (Call.probing idle (.resume .upgrade none) none).make workflow first.2
    let journals := RunStep.journals default (Episode.allSteps [first.1, second.1])
    journals.map (fun journal => (journal.messages.length, journal.audit.length)) =
        [(0, 6), (0, 12), (0, 13)] ∧
      journals.Pairwise (fun earlier later => earlier.audit <+: later.audit) := by
  intro fail idle workflow first second journals
  have written : journals.map (fun journal => (journal.messages.length, journal.audit.length)) =
      [(0, 6), (0, 12), (0, 13)] := by decide +revert
  have failed : History workflow [first.1] first.2 :=
    (History.empty rfl).call _ (Call.namesNew_empty _)
  have again : History workflow [first.1, second.1] second.2 :=
    failed.call _ (Call.namesNew_of_resume rfl first.2)
  exact ⟨written, (again.audit_goes_on default).2.1⟩

end History

end

end PhasedUpgrade
