import PhasedUpgrade.Proofs.Run.Soundness

/-!
# Runs on sound chronicles

A run that is let in finds the chronicle of its execution sound and keeps it so with each of its
steps, in which it looks as the place of the run in the protocol says (`Progress.sound`). What every
such step keeps is therefore true after any runs (`Runs.induction_on_chronicle`).
-/

namespace PhasedUpgrade

/-! ## One execution -/

/-- Where a run stands, the records that it has in hand are of one execution. -/
def Standing.Of (id : ExecutionId) : Standing → Prop
  | .outside | .over => True
  | .trying attempt => attempt.written.id = id
  | .deciding attempt next _ _ => attempt.written.id = id ∧ next.id = id

theorem Entry.Opens.id_eq {entry : Entry} {written : Execution} (h : entry.Opens written) :
    written.id = entry.execution.id := by
  cases h <;> rfl

def Standing.From (start : Nat) : Standing → Prop
  | .outside | .over => True
  | .trying attempt => start ≤ attempt.place
  | .deciding attempt _ _ _ => start ≤ attempt.place

namespace Progress

variable {workflow : Workflow} {entry : Entry} {done : List RunStep} {standing : Standing}

theorem standing_from (h : Progress workflow entry done standing) :
    standing.From entry.start := by
  induction h with
  | start => trivial
  | binding _ _ _ _ => trivial
  | enter _ _ _ => exact Nat.le_refl entry.start
  | visit _ _ _ ih => exact ih
  | journal _ _ ih => exact ih
  | @record _ _ _ _ goesOn _ ih =>
      cases goesOn with
      | true => exact Nat.le_succ_of_le ih
      | false => trivial

theorem standing_of (h : Progress workflow entry done standing) :
    standing.Of entry.execution.id := by
  induction h with
  | start => trivial
  | binding _ _ _ _ => trivial
  | enter _ opens _ => exact opens.id_eq
  | visit _ _ _ ih => exact ih
  | journal _ ends ih => exact ⟨ih, ends.id_eq.trans ih⟩
  | @record _ _ _ _ goesOn _ ih =>
      cases goesOn with
      | true => exact ih.2
      | false => trivial

/-- All that a run does it does for the execution that it was entered with. -/
theorem own (h : Progress workflow entry done standing) :
    ∀ step ∈ done, ∀ id, step.concerns id → id = entry.execution.id := by
  induction h with
  | start => exact fun _ none => nomatch none
  | binding name value _ ih =>
      refine List.forall_mem_append.mpr ⟨ih, List.forall_mem_singleton.mpr fun _ none => ?_⟩
      cases none
  | enter _ opens ih =>
      refine List.forall_mem_append.mpr ⟨ih, List.forall_mem_singleton.mpr fun id same => ?_⟩
      exact same.symm.trans opens.id_eq
  | visit before _ turn ih =>
      refine List.forall_mem_append.mpr ⟨ih, List.forall_mem_singleton.mpr fun id same => ?_⟩
      exact same.symm.trans (turn.execution_eq.trans before.standing_of)
  | journal before _ ih =>
      refine List.forall_mem_append.mpr ⟨ih, List.forall_mem_singleton.mpr fun id same => ?_⟩
      exact same.symm.trans before.standing_of
  | record before ih =>
      refine List.forall_mem_append.mpr ⟨ih, List.forall_mem_singleton.mpr fun id same => ?_⟩
      exact same.symm.trans before.standing_of.2

theorem ofSteps_of_ne (h : Progress workflow entry done standing) {id : ExecutionId}
    (other : id ≠ entry.execution.id) (log : List RunStep) :
    Chronicle.ofSteps id (log ++ done) = Chronicle.ofSteps id log := by
  refine Chronicle.ofSteps_append_of_not_concerns log ?_
  intro step mem concerns
  exact other (h.own step mem id concerns)

end Progress

section

variable {workflow : Workflow} {log : List RunStep} {entry : Entry} {written : Execution}

theorem Entry.Opens.active (h : entry.Opens written) :
    written.state = .running ∨ written.state = .resumed := by
  cases h with
  | begun _ _ _ => exact .inl rfl
  | resumed _ _ _ => exact .inr rfl

theorem Enters.lastPhase_eq (enters : Enters workflow log entry) (opens : entry.Opens written)
    (sound : (Chronicle.ofSteps entry.execution.id log).Sound workflow) :
    written.lastCompletedPhase = (Chronicle.ofSteps entry.execution.id log).lastPhase := by
  cases enters with
  | @fresh id new kind configuration time =>
      have nothing : Chronicle.ofSteps id log = .empty := sound.blank new
      show written.lastCompletedPhase = (Chronicle.ofSteps id log).lastPhase
      rw [nothing]
      cases opens <;> rfl
  | @resumed execution place stored placed =>
      show written.lastCompletedPhase = (Chronicle.ofSteps execution.id log).lastPhase
      rw [Chronicle.lastPhase, stored]
      cases opens <;> rfl

theorem Enters.underway (enters : Enters workflow log entry) (opens : entry.Opens written)
    (sound : (Chronicle.ofSteps entry.execution.id log).Sound workflow) :
    written.Underway workflow where
  workflow_eq := by
    have same : written.workflow = entry.execution.workflow := by cases opens <;> rfl
    rw [same]
    cases enters with
    | fresh _ _ _ _ => rfl
    | resumed stored _ => exact (sound.underway _ stored).workflow_eq
  started := by rcases opens.active with state | state <;> simp [state]

/-- A run is entered behind the last commit, with the messages of all of them. -/
theorem Enters.behind (enters : Enters workflow log entry)
    (sound : (Chronicle.ofSteps entry.execution.id log).Sound workflow) :
    entry.start = (Chronicle.ofSteps entry.execution.id log).commits.length ∧
      entry.journal.messages = (Chronicle.ofSteps entry.execution.id log).committed := by
  cases enters with
  | @fresh id new kind configuration time =>
      have nothing : Chronicle.ofSteps id log = .empty := sound.blank new
      show 0 = (Chronicle.ofSteps id log).commits.length ∧
        [] = (Chronicle.ofSteps id log).committed
      rw [nothing]
      exact ⟨rfl, rfl⟩
  | @resumed execution place stored placed =>
      obtain rfl : place = (Chronicle.ofSteps execution.id log).commits.length :=
        sound.resumePlace_eq stored placed
      exact ⟨rfl, sound.committedJournal_eq⟩

theorem Enters.opened (enters : Enters workflow log entry) (opens : entry.Opens written)
    (sound : (Chronicle.ofSteps entry.execution.id log).Sound workflow) :
    ((Chronicle.ofSteps entry.execution.id log).saved written).Sound workflow ∧
      ((Chronicle.ofSteps entry.execution.id log).saved written).Tries workflow
        ⟨written, entry.journal.messages, entry.start, []⟩ := by
  have last := enters.lastPhase_eq opens sound
  have commits := Chronicle.commits_saved_of_same last
  obtain ⟨place, messages⟩ := enters.behind sound
  refine ⟨sound.saved_of_same last (enters.underway opens sound), ?_⟩
  exact {
    stored := rfl
    log_eq := by
      rw [Chronicle.committed, commits]
      exact messages
    place_eq := by
      rw [commits]
      exact place
    attempt_eq := rfl
    active := opens.active
    stamped := nofun }

end

/-! ## Sound throughout -/

section

variable {workflow : Workflow} {log done : List RunStep} {entry : Entry} {standing : Standing}

/-- Wherever a run stands, the chronicle of its execution is sound and looks as it should there. -/
theorem Progress.sound (h : Progress workflow entry done standing)
    (enters : Enters workflow log entry)
    (before : (Chronicle.ofSteps entry.execution.id log).Sound workflow) :
    (Chronicle.ofSteps entry.execution.id (log ++ done)).Sound workflow ∧
      (Chronicle.ofSteps entry.execution.id (log ++ done)).Matches workflow
        (Chronicle.ofSteps entry.execution.id log) standing := by
  induction h with
  | start => exact ⟨by simpa using before, by simp [Chronicle.Matches]⟩
  | binding name value _ ih =>
      rw [Chronicle.ofSteps_append_concat]
      exact ih
  | enter _ opens ih =>
      rw [Chronicle.ofSteps_append_concat, Chronicle.note_save opens.id_eq, ih.2]
      exact enters.opened opens before
  | visit progress found turn ih =>
      have own := turn.execution_eq.trans progress.standing_of
      rw [Chronicle.ofSteps_append_concat, Chronicle.note_visit own]
      exact ⟨ih.1.attempted ih.2.stored _, ih.2.visited found turn⟩
  | @journal _ attempt _ journal _ progress ends ih =>
      have own : attempt.written.id = entry.execution.id := progress.standing_of
      rw [Chronicle.ofSteps_append_concat, own, Chronicle.note_saveJournal]
      exact ih.2.journalled ih.1 ends
  | record progress ih =>
      have own := progress.standing_of.2
      rw [Chronicle.ofSteps_append_concat, Chronicle.note_save own]
      exact ih.2.1.recorded ih.1 ih.2.2.1 ih.2.2.2 _

theorem Runs.sound {runs : List (List RunStep)} (h : Runs workflow runs) (id : ExecutionId) :
    (Chronicle.ofSteps id runs.flatten).Sound workflow := by
  induction h with
  | none => exact .empty workflow
  | idle _ ih => simpa using ih
  | @run runs entry done standing _ enters progress ih =>
      rw [List.flatten_append, List.flatten_singleton]
      by_cases own : id = entry.execution.id
      · subst own
        exact (progress.sound enters ih).1
      · rw [progress.ofSteps_of_ne own]
        exact ih

end

/-! ## One step after the other -/

/-- What a step of a run does to the chronicle of its execution, which is sound where it matters. -/
inductive Advance (workflow : Workflow) (entry : Entry) : RunStep → Chronicle → Chronicle → Prop
  | binding (name value : String) (chronicle : Chronicle) :
      Advance workflow entry (.setVariable name value) chronicle chronicle
  | enter {chronicle : Chronicle} {written : Execution} (sound : chronicle.Sound workflow)
      (opens : entry.Opens written) (last : written.lastCompletedPhase = chronicle.lastPhase) :
      Advance workflow entry (.save written) chronicle (chronicle.saved written)
  | visit {chronicle : Chronicle} {attempt : Attempt} {phase : Phase} {visit : Visit}
      (sound : chronicle.Sound workflow) (tries : chronicle.Tries workflow attempt)
      (behind : entry.start ≤ attempt.place)
      (found : workflow.phases[attempt.place]? = some phase)
      (turn : visit.OfPhase attempt.written.id phase.name) :
      Advance workflow entry (.visit visit) chronicle
        { chronicle with attempt := chronicle.attempt ++ visit.produced }
  | journal {chronicle : Chronicle} {attempt : Attempt} {next : Execution} {journal : Journal}
      {goesOn : Bool} (sound : chronicle.Sound workflow)
      (tries : chronicle.Tries workflow attempt)
      (ends : attempt.Ends workflow next journal.messages goesOn) :
      Advance workflow entry (.saveJournal attempt.written.id journal) chronicle
        { chronicle with journal := journal }
  | record {chronicle : Chronicle} {attempt : Attempt} {next : Execution} {kept : List Message}
      {goesOn : Bool} (sound : chronicle.Sound workflow)
      (tries : chronicle.Tries workflow attempt) (ends : attempt.Ends workflow next kept goesOn)
      (messages : chronicle.journal.messages = kept) :
      Advance workflow entry (.save next) chronicle (chronicle.saved next)

section

variable {workflow : Workflow} {log done : List RunStep} {entry : Entry} {standing : Standing}

/-- What the steps of a run keep is true of the chronicle however far the run is carried out. -/
theorem Progress.induction_on_chronicle {P : List RunStep → Chronicle → Prop}
    (h : Progress workflow entry done standing) (enters : Enters workflow log entry)
    (before : (Chronicle.ofSteps entry.execution.id log).Sound workflow)
    (start : P [] (Chronicle.ofSteps entry.execution.id log))
    (step : ∀ {done step chronicle later}, P done chronicle →
      Advance workflow entry step chronicle later → P (done ++ [step]) later) :
    P done (Chronicle.ofSteps entry.execution.id (log ++ done)) := by
  induction h with
  | start => simpa using start
  | binding name value _ ih =>
      rw [Chronicle.ofSteps_append_concat]
      exact step ih (.binding name value _)
  | @enter done written progress opens ih =>
      have found : Chronicle.ofSteps entry.execution.id (log ++ done) =
          Chronicle.ofSteps entry.execution.id log := (progress.sound enters before).2
      -- Nothing has been written so far, so the run opens on the chronicle as it found it.
      rw [Chronicle.ofSteps_append_concat, Chronicle.note_save opens.id_eq]
      rw [found] at ih ⊢
      exact step ih (.enter before opens (enters.lastPhase_eq opens before))
  | visit progress found turn ih =>
      have own := turn.execution_eq.trans progress.standing_of
      obtain ⟨sound, tries⟩ := progress.sound enters before
      rw [Chronicle.ofSteps_append_concat, Chronicle.note_visit own]
      exact step ih (.visit sound tries progress.standing_from found turn)
  | @journal done attempt next journal goesOn progress ends ih =>
      have own : attempt.written.id = entry.execution.id := progress.standing_of
      obtain ⟨sound, tries⟩ := progress.sound enters before
      have advance : Advance workflow entry (.saveJournal attempt.written.id journal)
          (Chronicle.ofSteps entry.execution.id (log ++ done)) _ := .journal sound tries ends
      rw [own] at advance
      rw [Chronicle.ofSteps_append_concat, own, Chronicle.note_saveJournal]
      exact step ih advance
  | record progress ih =>
      obtain ⟨sound, tries, ends, messages⟩ := progress.sound enters before
      rw [Chronicle.ofSteps_append_concat, Chronicle.note_save progress.standing_of.2]
      exact step ih (.record sound tries ends messages)

theorem RunStep.append_of_not_concerns {P : List RunStep → Prop} {id : ExecutionId}
    (foreign : ∀ {steps step}, P steps → ¬ step.concerns id → P (steps ++ [step]))
    {log steps : List RunStep} (h : P log) (apart : ∀ step ∈ steps, ¬ step.concerns id) :
    P (log ++ steps) := by
  induction steps generalizing log with
  | nil => simpa using h
  | cons step rest ih =>
      obtain ⟨first, others⟩ := List.forall_mem_cons.mp apart
      simpa using ih (foreign h first) others

/--
What every step of every run keeps is true of all steps that have been taken and of the chronicle of
an execution after them, whether a step belongs to that execution or to another one.
-/
theorem Runs.induction_on_steps {P : List RunStep → Chronicle → Prop}
    {runs : List (List RunStep)} (h : Runs workflow runs) (id : ExecutionId) (empty : P [] .empty)
    (foreign : ∀ {steps step chronicle}, P steps chronicle → ¬ step.concerns id →
      P (steps ++ [step]) chronicle)
    (own : ∀ {entry steps step chronicle later}, P steps chronicle →
      (∀ other, step.concerns other → other = id) → Advance workflow entry step chronicle later →
      P (steps ++ [step]) later) :
    P runs.flatten (Chronicle.ofSteps id runs.flatten) := by
  induction h with
  | none => exact empty
  | idle _ ih => simpa using ih
  | @run runs entry done standing earlier enters progress ih =>
      rw [List.flatten_append, List.flatten_singleton]
      by_cases same : id = entry.execution.id
      · subst same
        -- That a step is one of this execution is known of the run as a whole only.
        refine progress.induction_on_chronicle
          (P := fun done chronicle =>
            (∀ step ∈ done, ∀ other, step.concerns other → other = entry.execution.id) →
              P (runs.flatten ++ done) chronicle)
          enters (earlier.sound entry.execution.id) (fun _ => by simpa using ih) ?_ progress.own
        intro done step chronicle later before advance mine
        obtain ⟨others, this⟩ := List.forall_mem_append.mp mine
        rw [← List.append_assoc]
        exact own (before others) (List.forall_mem_singleton.mp this) advance
      · rw [progress.ofSteps_of_ne same]
        exact RunStep.append_of_not_concerns
          (P := fun steps => P steps (Chronicle.ofSteps id runs.flatten)) foreign ih
          fun step mem concerns => same (progress.own step mem id concerns)

theorem Runs.induction_on_chronicle {P : Chronicle → Prop} {runs : List (List RunStep)}
    (h : Runs workflow runs) (id : ExecutionId) (empty : P .empty)
    (step : ∀ {entry step chronicle later}, P chronicle →
      Advance workflow entry step chronicle later → P later) :
    P (Chronicle.ofSteps id runs.flatten) :=
  h.induction_on_steps (P := fun _ chronicle => P chronicle) id empty (fun before _ => before)
    fun before _ advance => step before advance

end

end PhasedUpgrade
