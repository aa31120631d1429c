import Mathlib.Data.List.Chain
import PhasedUpgrade.Proofs.Run.Advance

/-!
# Versions of a record

The record of an execution is written again and again. Each version names the phases that the one
before it has named, and one more at most. What a version names is done with: no actor acts in such
a phase any more, however many runs follow.
-/

namespace PhasedUpgrade

open LawfulStore (holdings)

namespace RunStep

def versions (id : ExecutionId) (steps : List RunStep) : List Execution :=
  steps.filterMap fun
    | .save execution => if execution.id = id then some execution else none
    | _ => none

variable {id : ExecutionId} {steps : List RunStep}

theorem versions_concat_save (steps : List RunStep) {version : Execution}
    (own : version.id = id) :
    versions id (steps ++ [.save version]) = versions id steps ++ [version] := by
  simp [versions, own]

theorem versions_concat_of_ne (steps : List RunStep) {step : RunStep}
    (h : ∀ version, step = .save version → version.id ≠ id) :
    versions id (steps ++ [step]) = versions id steps := by
  unfold versions
  rw [List.filterMap_append]
  cases step with
  | save version => simp [h version rfl]
  | setVariable name value => simp
  | visit turn => simp
  | saveJournal other journal => simp

theorem mem_versions {version : Execution} (mem : .save version ∈ steps) (own : version.id = id) :
    version ∈ versions id steps :=
  List.mem_filterMap.mpr ⟨.save version, mem, by simp [own]⟩

/-- Behind a record no visit is made in a phase that it names or that comes before. -/
def GoesOnBehind (workflow : Workflow) (id : ExecutionId) (earlier later : RunStep) : Prop :=
  ∀ version turn, earlier = .save version → later = .visit turn →
    version.id = id → turn.execution = id →
      ∃ count place, workflow.placeAfter version = .ok count ∧
        workflow.position? turn.phase = some place ∧ count ≤ place

end RunStep

def Grows (earlier later : Nat) : Prop :=
  earlier ≤ later ∧ later ≤ earlier + 1

/-- What the steps taken so far tell of the versions of a record and of the visits behind them. -/
structure Chronicle.InOrder (workflow : Workflow) (id : ExecutionId) (steps : List RunStep)
    (chronicle : Chronicle) : Prop where
  latest : chronicle.execution? = (RunStep.versions id steps).getLast?
  counted : ∃ counts, (RunStep.versions id steps).map workflow.placeAfter = counts.map .ok ∧
    (0 :: counts).IsChain Grows ∧ (0 :: counts).getLast? = some chronicle.commits.length
  bounded : ∀ version ∈ RunStep.versions id steps,
    ∃ count, workflow.placeAfter version = .ok count ∧ count ≤ chronicle.commits.length
  behind : steps.Pairwise (RunStep.GoesOnBehind workflow id)

namespace Chronicle.InOrder

variable {workflow : Workflow} {id : ExecutionId} {steps : List RunStep}
  {chronicle later : Chronicle}

theorem empty (workflow : Workflow) (id : ExecutionId) :
    Chronicle.empty.InOrder workflow id [] where
  latest := rfl
  counted := ⟨[], rfl, List.isChain_singleton 0, rfl⟩
  bounded _ none := nomatch none
  behind := .nil

theorem of_no_version (h : chronicle.InOrder workflow id steps) {step : RunStep}
    (unwritten : ∀ version, step = .save version → version.id ≠ id)
    (same : later.execution? = chronicle.execution?) (commits : later.commits = chronicle.commits)
    (behind : ∀ earlier ∈ steps, earlier.GoesOnBehind workflow id step) :
    later.InOrder workflow id (steps ++ [step]) := by
  have versions := RunStep.versions_concat_of_ne steps unwritten
  exact {
    latest := by rw [versions, same, h.latest]
    counted := by
      rw [versions, commits]
      exact h.counted
    bounded := by
      rw [versions, commits]
      exact h.bounded
    behind := List.pairwise_append.mpr ⟨h.behind, List.pairwise_singleton _ _,
      fun earlier mem => List.forall_mem_singleton.mpr (behind earlier mem)⟩ }

theorem of_version (h : chronicle.InOrder workflow id steps) {version : Execution}
    (own : version.id = id) (stored : later.execution? = some version)
    (grows : Grows chronicle.commits.length later.commits.length)
    (place : workflow.placeAfter version = .ok later.commits.length) :
    later.InOrder workflow id (steps ++ [.save version]) := by
  have versions := RunStep.versions_concat_save steps own
  obtain ⟨counts, counted, chain, last⟩ := h.counted
  exact {
    latest := by rw [versions, stored, List.getLast?_concat]
    counted := by
      refine ⟨counts ++ [later.commits.length], ?_, ?_, ?_⟩
      · rw [versions, List.map_append, List.map_append, counted, List.map_singleton, place]
        rfl
      · rw [← List.cons_append, List.isChain_append]
        refine ⟨chain, List.isChain_singleton _, ?_⟩
        intro earlier isLast next isFirst
        obtain rfl : chronicle.commits.length = earlier := Option.some.inj (last.symm.trans isLast)
        obtain rfl : later.commits.length = next := Option.some.inj isFirst
        exact grows
      · rw [← List.cons_append, List.getLast?_concat]
    bounded := by
      rw [versions]
      refine List.forall_mem_append.mpr ⟨fun earlier mem => ?_, ?_⟩
      · obtain ⟨count, found, bound⟩ := h.bounded earlier mem
        exact ⟨count, found, bound.trans grows.1⟩
      · exact List.forall_mem_singleton.mpr ⟨_, place, Nat.le_refl _⟩
    behind := by
      refine List.pairwise_append.mpr ⟨h.behind, List.pairwise_singleton _ _, ?_⟩
      exact fun earlier _ => List.forall_mem_singleton.mpr fun _ _ _ visits => nomatch visits }

end Chronicle.InOrder

section

variable {workflow : Workflow} {entry : Entry} {id : ExecutionId} {steps : List RunStep}
  {chronicle later : Chronicle}

/-- A record names all phases that have been committed when it has been written. -/
theorem Advance.placeAfter {version : Execution}
    (h : Advance workflow entry (.save version) chronicle later) :
    later.execution? = some version ∧ Grows chronicle.commits.length later.commits.length ∧
      workflow.placeAfter version = .ok later.commits.length := by
  have unchanged (sound : chronicle.Sound workflow)
      (last : version.lastCompletedPhase = chronicle.lastPhase) :
      Grows chronicle.commits.length (chronicle.saved version).commits.length ∧
        workflow.placeAfter version = .ok (chronicle.saved version).commits.length := by
    rw [Chronicle.commits_saved_of_same last]
    exact ⟨⟨Nat.le_refl _, Nat.le_succ _⟩, sound.placeAfter_of_lastPhase last⟩
  cases h with
  | enter sound opens last => exact ⟨rfl, unchanged sound last⟩
  | record sound tries ends messages =>
      refine ⟨rfl, ?_⟩
      rcases tries.commits_saved sound ends with ⟨last, _, _⟩ | ⟨phase, found, named, commits, _⟩
      · exact unchanged sound last
      · rw [commits, List.length_append, List.length_singleton]
        exact ⟨⟨Nat.le_succ _, Nat.le_refl _⟩, Workflow.placeAfter_of_named found named⟩

/-- No step of a run disturbs the order of the versions and of the visits behind them. -/
theorem Advance.inOrder {step : RunStep} (h : Advance workflow entry step chronicle later)
    (own : ∀ other, step.concerns other → other = id)
    (before : chronicle.InOrder workflow id steps) :
    later.InOrder workflow id (steps ++ [step]) := by
  cases step with
  | save version =>
      obtain ⟨stored, grows, place⟩ := h.placeAfter
      exact before.of_version (own version.id rfl) stored grows place
  | setVariable name value =>
      cases h with
      | binding _ _ _ =>
          exact before.of_no_version (fun _ saves => nomatch saves) rfl rfl
            fun _ _ _ _ _ visits => nomatch visits
  | saveJournal other journal =>
      cases h with
      | journal sound tries ends =>
          exact before.of_no_version (fun _ saves => nomatch saves) rfl rfl
            fun _ _ _ _ _ visits => nomatch visits
  | visit turn =>
      cases h with
      | visit sound tries behind found made =>
          refine before.of_no_version (fun _ saves => nomatch saves) rfl rfl ?_
          rintro earlier mem version turn rfl ⟨⟩ mine _
          obtain ⟨count, place, bound⟩ := before.bounded version (RunStep.mem_versions mem mine)
          refine ⟨count, _, place, ?_, bound.trans (Nat.le_of_eq tries.place_eq.symm)⟩
          rw [made.phase_eq, Workflow.position?_eq found]

theorem Runs.inOrder {runs : List (List RunStep)} (h : Runs workflow runs) (id : ExecutionId) :
    (Chronicle.ofSteps id runs.flatten).InOrder workflow id runs.flatten := by
  refine h.induction_on_steps id (.empty workflow id) ?_ fun before own advance =>
    advance.inOrder own before
  intro steps step chronicle before apart
  refine before.of_no_version ?_ rfl rfl ?_
  · rintro version rfl same
    exact apart same
  · rintro earlier _ version turn _ rfl _ same
    exact absurd same apart

/--
However the calls of a workflow went, the versions of a record that were written name one phase
after the other, none twice and none left out; the last of them is what the store holds. An actor
that acts after a version was written acts in a phase behind those that it names.
-/
theorem History.versions_in_order {σ : Type} [LawfulStore σ] {episodes : List Episode} {store : σ}
    (history : History workflow episodes store) (id : ExecutionId) :
    let steps := Episode.allSteps episodes
    (holdings store).execution? id = (RunStep.versions id steps).getLast? ∧
    (∃ counts, (RunStep.versions id steps).map workflow.placeAfter = counts.map .ok ∧
      (0 :: counts).IsChain Grows) ∧
    ∀ before version after, steps = before ++ .save version :: after → version.id = id →
      ∃ count, workflow.placeAfter version = .ok count ∧
        ∀ turn, .visit turn ∈ after → turn.execution = id →
          ∃ place, workflow.position? turn.phase = some place ∧ count ≤ place := by
  intro steps
  have order : (Chronicle.ofSteps id steps).InOrder workflow id steps := history.runs.inOrder id
  refine ⟨?_, ?_, ?_⟩
  · rw [history.holdings_eq]
    exact order.latest
  · obtain ⟨counts, counted, chain, _⟩ := order.counted
    exact ⟨counts, counted, chain⟩
  · intro before version after split own
    have written : version ∈ RunStep.versions id steps :=
      RunStep.mem_versions (by rw [split]; simp) own
    obtain ⟨count, place, _⟩ := order.bounded version written
    refine ⟨count, place, fun turn mem mine => ?_⟩
    have behind := order.behind
    rw [split] at behind
    have follows := (List.pairwise_cons.mp (List.pairwise_append.mp behind).2.1).1 _ mem
    obtain ⟨count', there, place', found, bound⟩ := follows version turn rfl rfl own mine
    obtain rfl : count = count' := Except.ok.inj (place.symm.trans place')
    exact ⟨there, found, bound⟩

/-- A run that is cut off in its first phase, taken up again, and once more behind the reboot. -/
theorem History.versions_over_reboot :
    let idle : View → Task Unit := fun _ => pure ()
    let first := (Call.probing idle (.fresh .upgrade default) (some 2)).make .rebooting
      MemoryStore.empty
    let second := (Call.probing idle (.resume .upgrade none) none).make .rebooting first.2
    let third := (Call.probing idle (.resume .upgrade none) none).make .rebooting second.2
    let steps := Episode.allSteps [first.1, second.1, third.1]
    (RunStep.versions default steps).length = 6 ∧
    ∃ counts, (RunStep.versions default steps).map Workflow.rebooting.placeAfter =
      counts.map .ok ∧ (0 :: counts).IsChain Grows := by
  intro idle first second third steps
  have written : (RunStep.versions default steps).length = 6 := by decide +revert
  have begun : History .rebooting [first.1] first.2 :=
    (History.empty rfl).call _ (Call.namesNew_empty _)
  have again : History .rebooting [first.1, second.1] second.2 :=
    begun.call _ (Call.namesNew_of_resume rfl first.2)
  have behind : History .rebooting [first.1, second.1, third.1] third.2 :=
    again.call _ (Call.namesNew_of_resume rfl second.2)
  exact ⟨written, (behind.versions_in_order default).2.1⟩

end

end PhasedUpgrade
