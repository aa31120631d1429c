import PhasedUpgrade.Proofs.Run.Refusal
import PhasedUpgrade.Proofs.Run.Undertaking
import PhasedUpgrade.Proofs.Run.Versions

/-!
# Well-formed records

Whatever runs have done and wherever they were cut off, the marks of a stored record fit its state,
and the phases that it names are those of its workflow. Runs begin without marks: a fresh record has
none and a resumed one forgets them. From then on only the record that ends a run is marked, and
with it that record is a failed one.
-/

namespace PhasedUpgrade

open LawfulStore (holdings)

namespace Execution

structure Unmarked (execution : Execution) : Prop where
  failure : execution.failure = false
  failedPhase : execution.failedPhase = none
  fatalStop : execution.fatalStop = false

/-- A record whose marks fit its state, and whose phases are those of its workflow. -/
structure WellFormed (workflow : Workflow) (execution : Execution) : Prop where
  started : execution.state ≠ .notStarted
  failure_iff : execution.failure = true ↔ execution.state = .failed
  failedPhase_iff : execution.failedPhase.isSome = true ↔ execution.state = .failed
  failed_of_fatalStop : execution.fatalStop = true → execution.state = .failed
  /-- The phase that has failed is the one behind the last completed one. -/
  failedPhase_next : ∀ name, execution.failedPhase = some name →
    ∃ place phase, workflow.phases[place]? = some phase ∧ phase.name = name ∧
      execution.lastCompletedPhase = workflow.nameBefore place
  wantsReboot : execution.state = .awaitingReboot → ∃ phase ∈ workflow.phases,
    execution.lastCompletedPhase = some phase.name ∧ phase.wantsReboot = true
  lastCompletedPhase_known : ∀ name, execution.lastCompletedPhase = some name →
    ∃ phase ∈ workflow.phases, phase.name = name

variable {workflow : Workflow} {execution : Execution}

theorem WellFormed.unmarked (h : execution.WellFormed workflow)
    (state : execution.state ≠ .failed) :
    execution.Unmarked where
  failure := by simpa using mt h.failure_iff.mp state
  failedPhase := by simpa using mt h.failedPhase_iff.mp state
  fatalStop := by simpa using mt h.failed_of_fatalStop state

theorem Unmarked.wellFormed (h : execution.Unmarked) (started : execution.state ≠ .notStarted)
    (state : execution.state ≠ .failed)
    (wantsReboot : execution.state = .awaitingReboot → ∃ phase ∈ workflow.phases,
      execution.lastCompletedPhase = some phase.name ∧ phase.wantsReboot = true)
    (known : ∀ name, execution.lastCompletedPhase = some name →
      ∃ phase ∈ workflow.phases, phase.name = name) :
    execution.WellFormed workflow where
  started := started
  failure_iff := by simp [h.failure, state]
  failedPhase_iff := by simp [h.failedPhase, state]
  failed_of_fatalStop := by simp [h.fatalStop]
  failedPhase_next := by simp [h.failedPhase]
  wantsReboot := wantsReboot
  lastCompletedPhase_known := known

end Execution

theorem Workflow.known_of_nameBefore {workflow : Workflow} {place : Nat} {name : String}
    (h : workflow.nameBefore place = some name) : ∃ phase ∈ workflow.phases, phase.name = name := by
  obtain ⟨phase, mem, same⟩ := List.mem_map.mp (List.mem_of_getLast? h)
  exact ⟨phase, List.mem_of_mem_take mem, same⟩

section

variable {workflow : Workflow} {chronicle : Chronicle} {attempt : Attempt}
  {written next : Execution}
  {log : List RunStep} {entry : Entry}

/-! ## What is written -/

/-- The record that ends an attempt is marked only if it is the record of a failure. -/
theorem Attempt.Ends.wellFormed {kept : List Message} {goesOn : Bool}
    (ends : attempt.Ends workflow next kept goesOn) (unmarked : attempt.written.Unmarked)
    (last : attempt.written.lastCompletedPhase = workflow.nameBefore attempt.place) :
    next.WellFormed workflow := by
  cases ends with
  | @failed phase found fatal time₁ time₂ =>
      exact {
        started := nofun
        failure_iff := ⟨fun _ => rfl, fun _ => rfl⟩
        failedPhase_iff := ⟨fun _ => rfl, fun _ => rfl⟩
        failed_of_fatalStop := fun _ => rfl
        failedPhase_next := fun name named =>
          ⟨attempt.place, phase, found, Option.some.inj named, last⟩
        wantsReboot := nofun
        lastCompletedPhase_known := fun name named =>
          Workflow.known_of_nameBefore (last.symm.trans named) }
  | @committed phase found gate state goesOn leaves time₁ time₂ =>
      have known := List.mem_of_getElem? found
      have unmarked :
          ((attempt.written.commitPhase phase.name time₁).marked state time₂).Unmarked :=
        ⟨unmarked.failure, rfl, unmarked.fatalStop⟩
      refine unmarked.wellFormed ?_ ?_ ?_ fun name named => ⟨phase, known, Option.some.inj named⟩
      · cases leaves <;> exact nofun
      · cases leaves <;> exact nofun
      · cases leaves with
        | onward => exact nofun
        | stopped => exact nofun
        | reboot wanted => exact fun _ => ⟨phase, known, rfl, wanted⟩
  | closed idle time =>
      have unmarked : (attempt.written.marked .completed time).Unmarked :=
        ⟨unmarked.failure, unmarked.failedPhase, unmarked.fatalStop⟩
      exact unmarked.wellFormed nofun nofun nofun fun name named =>
        Workflow.known_of_nameBefore (last.symm.trans named)

theorem Enters.unmarked (enters : Enters workflow log entry) (opens : entry.Opens written) :
    written.Unmarked := by
  have clean := (enters.clean opens).1
  exact ⟨congrArg Gist.failure clean, congrArg Gist.failedPhase clean,
    congrArg Gist.fatalStop clean⟩

/-- The last phase that a record and its chronicle name is the one before the next place. -/
theorem Chronicle.Sound.nameBefore_eq {execution : Execution} (h : chronicle.Sound workflow)
    (last : execution.lastCompletedPhase = chronicle.lastPhase) :
    execution.lastCompletedPhase = workflow.nameBefore chronicle.commits.length :=
  Workflow.lastCompletedPhase_of_placeAfter (h.placeAfter_of_lastPhase last)

/-- With every step of a run the record that it has in hand stays well-formed. -/
theorem Advance.wellFormed {step : RunStep} {later : Chronicle} (enters : Enters workflow log entry)
    (advance : Advance workflow entry step chronicle later)
    (before : ∀ execution, chronicle.execution? = some execution → execution.WellFormed workflow) :
    ∀ execution, later.execution? = some execution → execution.WellFormed workflow := by
  cases advance with
  | binding _ _ _ => exact before
  | visit _ _ _ _ _ => exact before
  | journal _ _ _ => exact before
  | enter sound opens last =>
      rintro written ⟨⟩
      have last := sound.nameBefore_eq last
      refine (enters.unmarked opens).wellFormed ?_ ?_ ?_ fun name named =>
        Workflow.known_of_nameBefore (last.symm.trans named)
      all_goals rcases opens.active with state | state <;> simp [state]
  | @record _ attempt next _ _ sound tries ends messages =>
      rintro written ⟨⟩
      have active : attempt.written.state ≠ .failed := by
        rcases tries.active with state | state <;> simp [state]
      refine ends.wellFormed ((before _ tries.stored).unmarked active) ?_
      rw [tries.place_eq]
      exact sound.nameBefore_eq tries.lastPhase_eq.symm

/-! ## What is stored -/

theorem RunStep.mem_of_mem_versions {id : ExecutionId} {steps : List RunStep} {version : Execution}
    (h : version ∈ versions id steps) : .save version ∈ steps := by
  obtain ⟨step, mem, same⟩ := List.mem_filterMap.mp h
  cases step with
  | save written =>
      obtain ⟨_, rfl⟩ : written.id = id ∧ written = version := by simpa using same
      exact mem
  | setVariable name value => cases same
  | visit turn => cases same
  | saveJournal other journal => cases same

variable {runs : List (List RunStep)}

theorem Runs.mem_of_stored (h : Runs workflow runs) {id : ExecutionId} {execution : Execution}
    (stored : (Chronicle.ofSteps id runs.flatten).execution? = some execution) :
    .save execution ∈ runs.flatten := by
  rw [(h.inOrder id).latest] at stored
  exact RunStep.mem_of_mem_versions (List.mem_of_getLast? stored)

/-- All records that a run writes are well-formed if the one that it finds is. -/
theorem Progress.wellFormed {done : List RunStep} {standing : Standing}
    (h : Progress workflow entry done standing) (enters : Enters workflow log entry)
    (sound : (Chronicle.ofSteps entry.execution.id log).Sound workflow)
    (before : ∀ execution, (Chronicle.ofSteps entry.execution.id log).execution? = some execution →
      execution.WellFormed workflow) :
    ∀ version, .save version ∈ done → version.WellFormed workflow := by
  have kept := h.induction_on_chronicle (P := fun done chronicle =>
    (∀ version, .save version ∈ done → version.WellFormed workflow) ∧
      ∀ execution, chronicle.execution? = some execution → execution.WellFormed workflow)
    enters sound ⟨fun _ none => (nomatch none), before⟩ ?_
  · exact kept.1
  · rintro done step chronicle later ⟨written, held⟩ advance
    have still := advance.wellFormed enters held
    refine ⟨fun version mem => ?_, still⟩
    rcases List.mem_append.mp mem with mem | mem
    · exact written version mem
    · obtain rfl := List.mem_singleton.mp mem
      exact still version advance.placeAfter.1

theorem Runs.wellFormed (h : Runs workflow runs) :
    ∀ version, .save version ∈ runs.flatten → version.WellFormed workflow := by
  induction h with
  | none => exact fun _ none => nomatch none
  | idle _ ih => simpa using ih
  | @run runs entry done standing earlier enters progress ih =>
      rw [List.flatten_append, List.flatten_singleton]
      intro version mem
      rcases List.mem_append.mp mem with mem | mem
      · exact ih version mem
      · exact progress.wellFormed enters (earlier.sound entry.execution.id)
          (fun execution stored => ih _ (earlier.mem_of_stored stored)) version mem

theorem Execution.WellFormed.exists_place {execution : Execution}
    (h : execution.WellFormed workflow) :
    ∃ place, workflow.placeAfter execution = .ok place := by
  cases last : execution.lastCompletedPhase with
  | none =>
      unfold Workflow.placeAfter
      rw [last]
      exact ⟨0, rfl⟩
  | some name =>
      obtain ⟨phase, known, rfl⟩ := h.lastCompletedPhase_known name last
      obtain ⟨place, there⟩ := List.mem_iff_getElem?.mp known
      exact ⟨place + 1, Workflow.placeAfter_of_named there last⟩

/--
However the calls of a workflow went and wherever they were cut off, all records that were written
are well-formed, and so are those that the store holds. A call to take one of them up has no fault
to find with the store but those that the store itself tells.
-/
theorem History.records_wellFormed {σ : Type} [LawfulStore σ] {episodes : List Episode} {store : σ}
    (history : History workflow episodes store) :
    (∀ version, .save version ∈ Episode.allSteps episodes → version.WellFormed workflow) ∧
    (∀ id execution, (holdings store).execution? id = some execution →
      execution.WellFormed workflow) ∧
    ∀ kind id cause, (Entry.resume workflow kind id store).1 = .error (.store cause) →
      (Entry.sought kind id store).1 = .error (.store cause) ∨
      ∃ execution after, Entry.sought kind id store = (.ok execution, after) ∧
        (Store.loadJournal execution.id after).1 = .error cause := by
  have written := history.runs.wellFormed
  have held : ∀ id execution, (holdings store).execution? id = some execution →
      execution.WellFormed workflow := by
    intro id execution stored
    rw [history.holdings_eq] at stored
    exact written execution (history.runs.mem_of_stored stored)
  refine ⟨written, held, fun kind id cause failed => ?_⟩
  unfold Entry.resume at failed
  rcases answer : Entry.sought kind id store with ⟨error | execution, after⟩ <;>
    simp only [answer] at failed
  · cases failed
    exact .inl rfl
  · refine .inr ⟨execution, after, rfl, ?_⟩
    cases placed : workflow.resumePlace execution with
    | error error =>
        rw [placed] at failed
        cases failed
        -- What is sought is stored, so it has a place.
        have stored := Entry.stored_of_sought
          (fun name _ => holdings_eq_iff.mp history.holdings_eq name) (congrArg Prod.fst answer)
        obtain ⟨place, there⟩ := (held _ _ stored).exists_place
        rcases Workflow.resumePlace_error placed with ⟨_, refused⟩ | ⟨fault, _, lost⟩
        · cases refused
        · cases there.symm.trans lost
    | ok place =>
        rw [placed] at failed
        rcases reading : Store.loadJournal execution.id after with ⟨error | journal, later⟩ <;>
          rw [reading] at failed <;> cases failed
        rfl

/-- A run that stops fatally behind the reboot marks the phase behind the one that was completed. -/
theorem History.records_wellFormed_of_fatal_stop :
    let idle : View → Task Unit := fun _ => pure ()
    let stop : View → Task Unit := fun _ => throw (.fatal "disk full" none)
    let first := (Call.probing idle (.fresh .upgrade default) none).make .rebooting
      MemoryStore.empty
    let second := (Call.probing stop (.resume .upgrade none) none).make .rebooting first.2
    ((holdings second.2).execution? default).map (fun execution =>
        (execution.state, execution.lastCompletedPhase, execution.failedPhase,
          execution.fatalStop)) =
      some (.failed, some "prepare", some "apply", true) ∧
    ∀ id execution, (holdings second.2).execution? id = some execution →
      execution.WellFormed .rebooting := by
  intro idle stop first second
  have marks : ((holdings second.2).execution? default).map (fun execution =>
      (execution.state, execution.lastCompletedPhase, execution.failedPhase, execution.fatalStop)) =
        some (.failed, some "prepare", some "apply", true) := by decide +revert
  have begun : History .rebooting [first.1] first.2 :=
    (History.empty rfl).call _ (Call.namesNew_empty _)
  have stopped : History .rebooting [first.1, second.1] second.2 :=
    begun.call _ (Call.namesNew_of_resume rfl first.2)
  exact ⟨marks, stopped.records_wellFormed.2.1⟩

end

end PhasedUpgrade
