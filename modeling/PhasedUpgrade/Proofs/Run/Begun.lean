import PhasedUpgrade.Proofs.Run.Advance

/-!
# Phases that have been begun

An execution has begun the phases that it has committed, and the one behind them unless it waits for
a reboot first. Actors only ever act in a phase that has been begun, and what has been begun stays
so. A phase that may not be retried is therefore begun in one run at most.
-/

namespace PhasedUpgrade

/-! ## Which phases may have been begun -/

namespace Chronicle

def HasBegun (chronicle : Chronicle) (place : Nat) : Prop :=
  place < chronicle.commits.length ∨
    place = chronicle.commits.length ∧
      ∃ execution, chronicle.execution? = some execution ∧ execution.state ≠ .awaitingReboot

theorem not_hasBegun_empty (place : Nat) : ¬ empty.HasBegun place := by
  rintro (before | ⟨_, _, stored, _⟩)
  · exact absurd before (Nat.not_lt_zero place)
  · cases stored

variable {workflow : Workflow} {chronicle : Chronicle} {place : Nat}

theorem HasBegun.le (h : chronicle.HasBegun place) : place ≤ chronicle.commits.length := by
  rcases h with before | ⟨same, _⟩ <;> omega

theorem hasBegun_saved {written : Execution}
    (last : written.lastCompletedPhase = chronicle.lastPhase)
    (state : written.state ≠ .awaitingReboot) (h : place ≤ chronicle.commits.length) :
    (chronicle.saved written).HasBegun place := by
  have commits := commits_saved_of_same last
  rcases Nat.lt_or_eq_of_le h with before | same
  · exact .inl (by rwa [commits])
  · exact .inr ⟨by rwa [commits], written, rfl, state⟩

namespace Tries

variable {attempt : Attempt}

theorem hasBegun (h : chronicle.Tries workflow attempt) : chronicle.HasBegun attempt.place := by
  refine .inr ⟨h.place_eq, attempt.written, h.stored, ?_⟩
  rcases h.active with state | state <;> simp [state]

theorem hasBegun_recorded (h : chronicle.Tries workflow attempt) (sound : chronicle.Sound workflow)
    {next : Execution} {kept : List Message} {goesOn : Bool}
    (ends : attempt.Ends workflow next kept goesOn) (begun : place ≤ chronicle.commits.length) :
    (chronicle.saved next).HasBegun place := by
  cases ends with
  | failed found fatal time₁ time₂ => exact hasBegun_saved h.lastPhase_eq.symm nofun begun
  | closed idle time => exact hasBegun_saved h.lastPhase_eq.symm nofun begun
  | committed found gate leaves time₁ time₂ =>
      rw [h.place_eq] at found
      left
      rw [sound.commits_saved found rfl, List.length_append, List.length_singleton]
      omega

end Tries

end Chronicle

/-! ## Runs only begin phases -/

/-- The places from some place on where a chronicle has begun a phase of a name. -/
def Chronicle.HasBegunFrom (workflow : Workflow) (chronicle : Chronicle) (start : Nat)
    (name : String) : Prop :=
  ∃ place phase, start ≤ place ∧ workflow.phases[place]? = some phase ∧ phase.name = name ∧
    chronicle.HasBegun place

theorem Chronicle.HasBegunFrom.mono {workflow : Workflow} {chronicle later : Chronicle}
    {start start' : Nat} {name : String}
    (h : chronicle.HasBegunFrom workflow start name) (earlier : start' ≤ start)
    (kept : ∀ place, chronicle.HasBegun place → later.HasBegun place) :
    later.HasBegunFrom workflow start' name := by
  obtain ⟨place, phase, behind, found, named, begun⟩ := h
  exact ⟨place, phase, earlier.trans behind, found, named, kept place begun⟩

section

variable {workflow : Workflow} {entry : Entry} {log done : List RunStep} {standing : Standing}
  {chronicle later : Chronicle}

theorem Advance.hasBegun {step : RunStep} (h : Advance workflow entry step chronicle later)
    (place : Nat) (begun : chronicle.HasBegun place) : later.HasBegun place := by
  cases h with
  | binding name value _ => exact begun
  | enter sound opens last =>
      have state : ∀ written, entry.Opens written → written.state ≠ .awaitingReboot := by
        intro written opens
        rcases opens.active with state | state <;> simp [state]
      exact Chronicle.hasBegun_saved last (state _ opens) begun.le
  | visit sound tries behind found turn => exact begun
  | journal sound tries ends => exact begun
  | record sound tries ends messages => exact tries.hasBegun_recorded sound ends begun.le

/-- A visit is made in a phase that has been begun, from the place of entry on. -/
theorem Advance.hasBegunFrom {turn : Visit}
    (h : Advance workflow entry (.visit turn) chronicle later) :
    later.HasBegunFrom workflow entry.start turn.phase := by
  cases h with
  | visit sound tries behind found made =>
      exact ⟨_, _, behind, found, made.phase_eq.symm, tries.hasBegun⟩

/-- A run leaves begun what has been begun, and begins whatever it makes visits in. -/
theorem Progress.hasBegun (h : Progress workflow entry done standing)
    (enters : Enters workflow log entry)
    (before : (Chronicle.ofSteps entry.execution.id log).Sound workflow) :
    (∀ place, (Chronicle.ofSteps entry.execution.id log).HasBegun place →
      (Chronicle.ofSteps entry.execution.id (log ++ done)).HasBegun place) ∧
    ∀ turn, .visit turn ∈ done →
      (Chronicle.ofSteps entry.execution.id (log ++ done)).HasBegunFrom workflow entry.start
        turn.phase := by
  refine h.induction_on_chronicle
    (P := fun done chronicle =>
      (∀ place, (Chronicle.ofSteps entry.execution.id log).HasBegun place →
        chronicle.HasBegun place) ∧
      ∀ turn, .visit turn ∈ done →
        chronicle.HasBegunFrom workflow entry.start turn.phase)
    enters before ⟨fun _ begun => begun, nofun⟩ ?_
  intro done step chronicle later ih advance
  refine ⟨fun place begun => advance.hasBegun place (ih.1 place begun), fun turn mem => ?_⟩
  rcases List.mem_append.mp mem with old | new
  · exact (ih.2 turn old).mono (Nat.le_refl _) advance.hasBegun
  · obtain rfl := List.mem_singleton.mp new
    exact advance.hasBegunFrom

theorem Runs.hasBegun {runs : List (List RunStep)} (h : Runs workflow runs) {turn : Visit}
    (mem : .visit turn ∈ runs.flatten) :
    (Chronicle.ofSteps turn.execution runs.flatten).HasBegunFrom workflow 0 turn.phase := by
  induction h with
  | none => cases mem
  | idle _ ih =>
      rw [List.flatten_append] at mem ⊢
      simpa using ih (by simpa using mem)
  | @run runs entry done standing earlier enters progress ih =>
      rw [List.flatten_append, List.flatten_singleton] at mem ⊢
      have before := earlier.sound entry.execution.id
      rcases List.mem_append.mp mem with old | new
      · by_cases own : turn.execution = entry.execution.id
        · have begun := ih old
          rw [own] at begun ⊢
          exact begun.mono (Nat.le_refl _) (progress.hasBegun enters before).1
        · rw [progress.ofSteps_of_ne own]
          exact ih old
      · rw [progress.own _ new turn.execution rfl]
        have begun := (progress.hasBegun enters before).2 turn new
        exact begun.mono (Nat.zero_le _) fun _ begun => begun

end

/-! ## Phases that may not be retried -/

def RunStep.visits (id : ExecutionId) (phase : String) (steps : List RunStep) : Bool :=
  steps.any fun
    | .visit turn => turn.execution = id && turn.phase = phase
    | _ => false

/-- Whether a call lets actors of a phase act for an execution. -/
def Episode.invokes (id : ExecutionId) (phase : String) (episode : Episode) : Bool :=
  RunStep.visits id phase episode.steps

theorem RunStep.visits_eq_true_iff {id : ExecutionId} {phase : String} {steps : List RunStep} :
    visits id phase steps = true ↔
      ∃ turn, .visit turn ∈ steps ∧ turn.execution = id ∧ turn.phase = phase := by
  unfold visits
  rw [List.any_eq_true]
  constructor
  · rintro ⟨step, mem, holds⟩
    cases step with
    | visit turn => exact ⟨turn, mem, by simpa using holds⟩
    | setVariable name value => cases holds
    | save execution => cases holds
    | saveJournal other journal => cases holds
  · rintro ⟨turn, mem, own, named⟩
    exact ⟨.visit turn, mem, by simp [own, named]⟩

section

variable {workflow : Workflow} {entry : Entry} {log : List RunStep} {phase : Phase} {place : Nat}

theorem Workflow.checkRetry_of_disabled {execution : Execution}
    (found : workflow.phases[place]? = some phase) (disabled : phase.retryPolicy = .disabled) :
    workflow.checkRetry execution place ≠ .ok () := by
  unfold checkRetry
  rw [found]
  cases execution.fatalStop with
  | true => exact nofun
  | false => simp [disabled]

/-- Where a phase may not be retried, no run is let in that would begin it once more. -/
theorem Enters.not_hasBegun (enters : Enters workflow log entry)
    (sound : (Chronicle.ofSteps entry.execution.id log).Sound workflow)
    (found : workflow.phases[place]? = some phase) (disabled : phase.retryPolicy = .disabled)
    (behind : entry.start ≤ place) :
    ¬ (Chronicle.ofSteps entry.execution.id log).HasBegun place := by
  intro begun
  have entered := (enters.behind sound).1
  cases enters with
  | @fresh id new kind configuration time =>
      have nothing : Chronicle.ofSteps id log = .empty := sound.blank new
      refine Chronicle.not_hasBegun_empty place ?_
      rw [← nothing]
      exact begun
  | @resumed execution start stored placed =>
      rcases begun with before | ⟨here, other, again, state⟩
      · exact absurd behind (by omega)
      · obtain rfl : execution = other := Option.some.inj (stored.symm.trans again)
        rcases (Workflow.resumePlace_spec placed).2.2 with waits | ⟨_, checked⟩
        · exact state waits
        · obtain rfl : start = place := entered.trans here.symm
          exact Workflow.checkRetry_of_disabled found disabled checked

/-- A run that makes visits in a phase that may not be retried is the first one to do so. -/
theorem Runs.not_visits_before {runs : List (List RunStep)} {done : List RunStep}
    {standing : Standing} (earlier : Runs workflow runs)
    (enters : Enters workflow runs.flatten entry) (progress : Progress workflow entry done standing)
    (known : phase ∈ workflow.phases) (disabled : phase.retryPolicy = .disabled) {id : ExecutionId}
    (visits : RunStep.visits id phase.name done = true) :
    ∀ run ∈ runs, RunStep.visits id phase.name run = false := by
  intro run among
  by_contra again
  obtain ⟨new, mem, own, named⟩ := RunStep.visits_eq_true_iff.mp visits
  obtain ⟨old, before, own', named'⟩ := RunStep.visits_eq_true_iff.mp (by simpa using again)
  obtain rfl : id = entry.execution.id := own ▸ progress.own _ mem new.execution rfl
  have sound := earlier.sound entry.execution.id
  -- Both visits are in the phase itself, for there is no other of its name.
  obtain ⟨place, there⟩ := List.mem_iff_getElem?.mp known
  have old := earlier.hasBegun (List.mem_flatten.mpr ⟨run, among, before⟩)
  rw [own', named'] at old
  obtain ⟨first, _, _, found, called, begun⟩ := old
  obtain rfl := Workflow.place_unique found there called
  have new := (progress.hasBegun enters sound).2 new mem
  rw [named] at new
  obtain ⟨second, _, behind, found', called', _⟩ := new
  obtain rfl := Workflow.place_unique found' there called'
  exact enters.not_hasBegun sound there disabled behind begun

theorem Runs.visits_le_one {runs : List (List RunStep)} (h : Runs workflow runs)
    (known : phase ∈ workflow.phases) (disabled : phase.retryPolicy = .disabled)
    (id : ExecutionId) : (runs.filter (RunStep.visits id phase.name)).length ≤ 1 := by
  induction h with
  | none => exact Nat.zero_le 1
  | idle _ ih =>
      rw [List.filter_append]
      simpa [RunStep.visits] using ih
  | @run runs entry done standing earlier enters progress ih =>
      rw [List.filter_append]
      cases visits : RunStep.visits id phase.name done with
      | false => simpa [visits] using ih
      | true =>
          have none := earlier.not_visits_before enters progress known disabled visits
          rw [List.filter_eq_nil_iff.mpr fun run mem => by simp [none run mem]]
          simp [visits]

/--
However the calls of a workflow went, actors of a phase that may not be retried act in one of them
at most for an execution, even if that call died or did not get its phase committed.
-/
theorem History.invokes_le_one {σ : Type} [LawfulStore σ] {episodes : List Episode} {store : σ}
    (history : History workflow episodes store) (known : phase ∈ workflow.phases)
    (disabled : phase.retryPolicy = .disabled) (id : ExecutionId) :
    (episodes.filter (Episode.invokes id phase.name)).length ≤ 1 := by
  have once := history.runs.visits_le_one known disabled id
  rw [List.filter_map, List.length_map] at once
  exact once

/-- A call that dies behind the first actor of such a phase is the only one to let actors act. -/
theorem History.invokes_le_one_of_cut_off :
    let phase : Phase := { Phase.plain "apply" "upgrade" with retryPolicy := .disabled }
    let idle : View → Task Unit := fun _ => pure ()
    let first := (Call.probing idle (.fresh .upgrade default) (some 2)).make (.single phase)
      MemoryStore.empty
    let second := (Call.probing idle (.resume .upgrade none) none).make (.single phase) first.2
    first.1.invokes default "apply" = true ∧
      ([first.1, second.1].filter (Episode.invokes default "apply")).length ≤ 1 := by
  intro phase idle first second
  have acts : first.1.invokes default "apply" = true := by decide +revert
  have begun : History (.single phase) [first.1] first.2 :=
    (History.empty rfl).call _ (Call.namesNew_empty _)
  have history : History (.single phase) [first.1, second.1] second.2 :=
    begun.call _ (Call.namesNew_of_resume rfl first.2)
  exact ⟨acts, history.invokes_le_one (List.mem_singleton_self phase) rfl default⟩

end

end PhasedUpgrade
