import Mathlib.Data.List.Induction
import PhasedUpgrade.Proofs.Store.Law
import PhasedUpgrade.Run.Perform

/-!
# Chronicles of executions

What the steps of any number of runs come to for one execution: its record, its journal, and which
phases have been committed with which messages. An attempt at a phase are the visits since the
record was last written; a record that names another phase as the last completed one commits it.
-/

namespace PhasedUpgrade

/-- A phase that has been committed, with the messages of the attempt that was. -/
structure Commit where
  phase : String
  messages : List Message

/-- What has become of an execution. -/
structure Chronicle where
  execution? : Option Execution
  journal : Journal
  /-- The messages produced since the record was last written. -/
  attempt : List Message
  commits : List Commit

namespace Chronicle

def empty : Chronicle := ⟨none, .empty, [], []⟩

def committed (chronicle : Chronicle) : List Message :=
  chronicle.commits.flatMap Commit.messages

def lastPhase (chronicle : Chronicle) : Option String :=
  chronicle.execution?.bind Execution.lastCompletedPhase

/-- With a record written, which ends the attempt. -/
def saved (chronicle : Chronicle) (execution : Execution) : Chronicle :=
  { chronicle with
    execution? := some execution
    attempt := []
    commits :=
      match execution.lastCompletedPhase with
      | none => chronicle.commits
      | some phase =>
          if chronicle.lastPhase = some phase then chronicle.commits
          else chronicle.commits ++ [⟨phase, chronicle.attempt⟩] }

def note (id : ExecutionId) (chronicle : Chronicle) : RunStep → Chronicle
  | .setVariable _ _ => chronicle
  | .visit visit =>
      if visit.execution = id then
        { chronicle with attempt := chronicle.attempt ++ visit.produced }
      else chronicle
  | .save execution => if execution.id = id then chronicle.saved execution else chronicle
  | .saveJournal other journal =>
      if other = id then { chronicle with journal := journal } else chronicle

def ofSteps (id : ExecutionId) (steps : List RunStep) : Chronicle :=
  steps.foldl (note id) empty

theorem ofSteps_concat (id : ExecutionId) (steps : List RunStep) (step : RunStep) :
    ofSteps id (steps ++ [step]) = (ofSteps id steps).note id step := by
  simp [ofSteps, List.foldl_append]

theorem ofSteps_append_concat (id : ExecutionId) (log done : List RunStep) (step : RunStep) :
    ofSteps id (log ++ (done ++ [step])) = (ofSteps id (log ++ done)).note id step := by
  rw [← List.append_assoc, ofSteps_concat]

variable {id : ExecutionId} {chronicle : Chronicle}

theorem note_visit {visit : Visit} (h : visit.execution = id) :
    chronicle.note id (.visit visit) =
      { chronicle with attempt := chronicle.attempt ++ visit.produced } := by
  simp [note, h]

theorem note_save {execution : Execution} (h : execution.id = id) :
    chronicle.note id (.save execution) = chronicle.saved execution := by
  simp [note, h]

theorem note_saveJournal (journal : Journal) :
    chronicle.note id (.saveJournal id journal) = { chronicle with journal := journal } := by
  simp [note]

theorem commits_saved_of_same {execution : Execution}
    (h : execution.lastCompletedPhase = chronicle.lastPhase) :
    (chronicle.saved execution).commits = chronicle.commits := by
  unfold saved
  cases last : execution.lastCompletedPhase with
  | none => rfl
  | some phase => simp [← h, last]

theorem commits_saved_of_other {execution : Execution} {phase : String}
    (named : execution.lastCompletedPhase = some phase) (h : chronicle.lastPhase ≠ some phase) :
    (chronicle.saved execution).commits = chronicle.commits ++ [⟨phase, chronicle.attempt⟩] := by
  simp [saved, named, h]

end Chronicle

/-! ## Steps of other executions -/

def RunStep.concerns (id : ExecutionId) : RunStep → Prop
  | .setVariable _ _ => False
  | .visit turn => turn.execution = id
  | .save execution => execution.id = id
  | .saveJournal other _ => other = id

theorem Chronicle.note_of_not_concerns {id : ExecutionId} {step : RunStep}
    (h : ¬ step.concerns id) (chronicle : Chronicle) : chronicle.note id step = chronicle := by
  cases step with
  | setVariable name value => rfl
  | visit turn => simp [note, show ¬ turn.execution = id from h]
  | save execution => simp [note, show ¬ execution.id = id from h]
  | saveJournal other journal => simp [note, show ¬ other = id from h]

theorem Chronicle.ofSteps_append_of_not_concerns {id : ExecutionId} (log : List RunStep)
    {steps : List RunStep} (h : ∀ step ∈ steps, ¬ step.concerns id) :
    ofSteps id (log ++ steps) = ofSteps id log := by
  induction steps generalizing log with
  | nil => simp
  | cons step rest ih =>
      have later := ih (log ++ [step]) fun other mem => h other (List.mem_cons_of_mem _ mem)
      rw [List.append_assoc, List.singleton_append] at later
      rw [later, ofSteps_concat, note_of_not_concerns (h step List.mem_cons_self)]

theorem Chronicle.id_eq_of_stored {id : ExecutionId} {log : List RunStep} {execution : Execution}
    (h : (ofSteps id log).execution? = some execution) : execution.id = id := by
  induction log using List.reverseRecOn generalizing execution with
  | nil => cases h
  | append_singleton log step ih =>
      rw [ofSteps_concat] at h
      by_cases own : step.concerns id
      · cases step with
        | setVariable name value => cases own
        | visit turn =>
            rw [note_visit own] at h
            exact ih h
        | save written =>
            rw [note_save own] at h
            cases h
            exact own
        | saveJournal other journal =>
            obtain rfl : other = id := own
            rw [note_saveJournal] at h
            exact ih h
      · rw [note_of_not_concerns own] at h
        exact ih h

/-! ## Stores and chronicles -/

open LawfulStore (holdings)

def Holdings.ofSteps (steps : List RunStep) : Holdings where
  execution? id := (Chronicle.ofSteps id steps).execution?
  journal id := (Chronicle.ofSteps id steps).journal

/-- Whether a store holds of an execution what some steps have left of it. -/
def StoresOf {σ : Type} [LawfulStore σ] (id : ExecutionId) (log : List RunStep) (store : σ) :
    Prop :=
  (holdings store).execution? id = (Chronicle.ofSteps id log).execution? ∧
    (holdings store).journal id = (Chronicle.ofSteps id log).journal

section

variable {σ : Type} [LawfulStore σ] {log : List RunStep} {store : σ}

theorem holdings_eq_iff : holdings store = .ofSteps log ↔ ∀ id, StoresOf id log store := by
  constructor
  · intro held id
    rw [StoresOf, held]
    exact ⟨rfl, rfl⟩
  · intro held
    have executions := funext fun id => (held id).1
    have journals := funext fun id => (held id).2
    show Holdings.mk (holdings store).execution? (holdings store).journal = _
    rw [executions, journals]
    rfl

theorem StoresOf.of_settled {id : ExecutionId} {later : List RunStep} {next : σ}
    {written : Holdings} {result : Except StoreError Unit} (h : StoresOf id log store)
    (after : holdings next = written.settled (holdings store) result)
    (made : written.execution? id = (Chronicle.ofSteps id later).execution? ∧
      written.journal id = (Chronicle.ofSteps id later).journal) :
    (result = .ok () → StoresOf id later next) ∧
      ∀ error, result = .error error → StoresOf id log next := by
  unfold StoresOf
  rw [after]
  cases result with
  | error error => exact ⟨nofun, fun _ _ => h⟩
  | ok _ => exact ⟨fun _ => made, nofun⟩

end

namespace RunStep

theorem performAll_prefix {σ : Type} [Store σ] (steps : List RunStep) (store : σ) :
    (performAll steps store).1 <+: steps ∧
      ((performAll steps store).2.1 = .ok () → (performAll steps store).1 = steps) := by
  induction steps generalizing store with
  | nil => exact ⟨List.prefix_rfl, fun _ => rfl⟩
  | cons step rest ih =>
      unfold performAll
      rcases step.perform store with ⟨error | ⟨⟨⟩⟩, next⟩
      · exact ⟨List.nil_prefix, nofun⟩
      · obtain ⟨first, whole⟩ := ih next
        exact ⟨(List.prefix_cons_inj step).mpr first, fun ended => congrArg _ (whole ended)⟩

variable {σ : Type} [LawfulStore σ] {id : ExecutionId} {log : List RunStep} {store : σ}

/-- A step that is carried out is held from then on, and one that fails leaves all as it was. -/
theorem perform_storesOf (h : StoresOf id log store) (step : RunStep) :
    ((step.perform store).1 = .ok () → StoresOf id (log ++ [step]) (step.perform store).2) ∧
      ∀ error, (step.perform store).1 = .error error → StoresOf id log (step.perform store).2 := by
  cases step with
  | setVariable name value =>
      refine ⟨fun _ => ?_, nofun⟩
      unfold StoresOf
      rw [Chronicle.ofSteps_concat]
      exact h
  | visit turn =>
      refine ⟨fun _ => ?_, nofun⟩
      unfold StoresOf
      rw [Chronicle.ofSteps_concat, Chronicle.note]
      split
      · exact h
      · exact h
  | save execution =>
      refine h.of_settled (LawfulStore.holdings_save execution store) ?_
      rw [Chronicle.ofSteps_concat, Chronicle.note]
      by_cases own : execution.id = id
      · rw [if_pos own]
        exact ⟨if_pos own.symm, h.2⟩
      · rw [if_neg own]
        exact ⟨(if_neg (Ne.symm own)).trans h.1, h.2⟩
  | saveJournal other journal =>
      refine h.of_settled (LawfulStore.holdings_saveJournal other journal store) ?_
      rw [Chronicle.ofSteps_concat, Chronicle.note]
      by_cases own : other = id
      · rw [if_pos own]
        exact ⟨h.1, if_pos own.symm⟩
      · rw [if_neg own]
        exact ⟨h.1, (if_neg (Ne.symm own)).trans h.2⟩

/-- What a store holds behind some steps are those of them that were carried out. -/
theorem performAll_storesOf (h : StoresOf id log store) (steps : List RunStep) :
    StoresOf id (log ++ (performAll steps store).1) (performAll steps store).2.2 := by
  induction steps generalizing log store with
  | nil => simpa [performAll] using h
  | cons step rest ih =>
      obtain ⟨made, failed⟩ := perform_storesOf h step
      unfold performAll
      rcases result : step.perform store with ⟨error | ⟨⟨⟩⟩, next⟩
      · rw [result] at failed
        simpa using failed error rfl
      · rw [result] at made
        simpa using ih (made rfl)

end RunStep

end PhasedUpgrade
