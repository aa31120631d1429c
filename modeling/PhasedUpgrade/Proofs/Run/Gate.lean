import PhasedUpgrade.Proofs.Run.Begun

/-!
# The gate for inhibitors

A phase that stops at inhibitors is only committed while no report among the messages of its own
attempt and of all commits before it keeps the upgrade from going on. The messages may have come
from the same run or have been read back from the journal after a reboot.
-/

namespace PhasedUpgrade

open LawfulStore (holdings)

/-! ## Inhibiting messages -/

namespace Message

/-- Whether a message carries a report that keeps the upgrade from going on. -/
def IsInhibitor (message : Message) : Prop :=
  ∃ report, Report.model.read message = .ok report ∧ .inhibitor ∈ report.groups

theorem inhibit_eq_true_iff {messages : List Message} :
    inhibit messages = true ↔ ∃ message ∈ messages, message.IsInhibitor := by
  unfold inhibit reports
  rw [List.any_eq_true]
  constructor
  · rintro ⟨report, among, inhibits⟩
    obtain ⟨message, mem, decoded⟩ := List.mem_filterMap.mp among
    have inhibits : .inhibitor ∈ report.groups := by simpa [Report.isInhibitor] using inhibits
    refine ⟨message, (List.mem_filter.mp mem).1, report, ?_, inhibits⟩
    cases read : Report.model.read message with
    | error cause => simp [read, Except.toOption] at decoded
    | ok other => simpa [read, Except.toOption] using decoded
  · rintro ⟨message, mem, report, read, inhibits⟩
    have typed : message.typeName = Report.model.name := by
      unfold Model.read at read
      split at read
      · assumption
      · cases read
    have among : message ∈ messages.filter (·.typeName = Report.model.name) :=
      List.mem_filter.mpr ⟨mem, by simp [typed]⟩
    refine ⟨report, List.mem_filterMap.mpr ⟨message, among, ?_⟩, ?_⟩
    · rw [read]
      rfl
    · simpa [Report.isInhibitor] using inhibits

theorem not_isInhibitor_of_inhibit {messages : List Message} (h : inhibit messages = false) :
    ∀ message ∈ messages, ¬ message.IsInhibitor := by
  intro message mem inhibits
  have found := inhibit_eq_true_iff.mpr ⟨message, mem, inhibits⟩
  rw [h] at found
  cases found

end Message

/-! ## Committed phases have passed the gate -/

namespace Chronicle

def committedUpTo (chronicle : Chronicle) (place : Nat) : List Message :=
  (chronicle.commits.take (place + 1)).flatMap Commit.messages

/-- Each committed phase that stops at inhibitors was committed without any. -/
def Gated (workflow : Workflow) (chronicle : Chronicle) : Prop :=
  ∀ place phase, workflow.phases[place]? = some phase → phase.stopIfInhibited = true →
    place < chronicle.commits.length → Message.inhibit (chronicle.committedUpTo place) = false

variable {workflow : Workflow} {chronicle later : Chronicle}

theorem Gated.of_commits_eq (h : chronicle.Gated workflow)
    (same : later.commits = chronicle.commits) : later.Gated workflow := by
  unfold Gated committedUpTo
  rw [same]
  exact h

theorem Gated.recorded (h : chronicle.Gated workflow) {attempt : Attempt}
    (tries : chronicle.Tries workflow attempt) (sound : chronicle.Sound workflow)
    {next : Execution} {kept : List Message} {goesOn : Bool}
    (ends : attempt.Ends workflow next kept goesOn) : (chronicle.saved next).Gated workflow := by
  cases ends with
  | failed found fatal time₁ time₂ =>
      exact h.of_commits_eq (commits_saved_of_same tries.lastPhase_eq.symm)
  | closed idle time => exact h.of_commits_eq (commits_saved_of_same tries.lastPhase_eq.symm)
  | @committed phase found gate state goesOn leaves time₁ time₂ =>
      have here : workflow.phases[chronicle.commits.length]? = some phase := tries.place_eq ▸ found
      have commits : (chronicle.saved
          ((attempt.written.commitPhase phase.name time₁).marked state time₂)).commits =
            chronicle.commits ++ [⟨phase.name, chronicle.attempt⟩] :=
        sound.commits_saved here rfl
      intro place other there gated inside
      unfold committedUpTo
      rw [commits] at inside ⊢
      rw [List.length_append, List.length_singleton] at inside
      rcases Nat.lt_or_eq_of_le (Nat.le_of_lt_succ inside) with before | rfl
      · rw [List.take_append_of_le_length before]
        exact h place other there gated before
      · obtain rfl := Option.some.inj (here.symm.trans there)
        rw [List.take_of_length_le (by simp), List.flatMap_append]
        have free := gate gated
        rw [tries.log_eq, ← tries.attempt_eq] at free
        simpa [committed] using free

end Chronicle

section

variable {workflow : Workflow}

/-- No step of a run lets a phase past the gate. -/
theorem Advance.gated {entry : Entry} {step : RunStep} {chronicle later : Chronicle}
    (h : Advance workflow entry step chronicle later) (gated : chronicle.Gated workflow) :
    later.Gated workflow := by
  cases h with
  | binding name value _ => exact gated
  | enter sound opens last => exact gated.of_commits_eq (Chronicle.commits_saved_of_same last)
  | visit sound tries behind found turn => exact gated
  | journal sound tries ends => exact gated
  | record sound tries ends messages => exact gated.recorded tries sound ends

theorem Runs.gated {runs : List (List RunStep)} (h : Runs workflow runs) (id : ExecutionId) :
    (Chronicle.ofSteps id runs.flatten).Gated workflow :=
  h.induction_on_chronicle id (fun _ _ _ _ inside => absurd inside (Nat.not_lt_zero _))
    fun gated advance => advance.gated gated

/--
Whenever a phase that stops at inhibitors has been committed, so that the record in the store names
it or a later one, no message of its committed attempt or of one before it is an inhibitor. Where
there is one among them, no actor of a later phase has ever acted for the execution.
-/
theorem History.no_inhibitor_past_gate {σ : Type} [LawfulStore σ] {episodes : List Episode}
    {store : σ} (history : History workflow episodes store) (id : ExecutionId) :
    let chronicle := Chronicle.ofSteps id (Episode.allSteps episodes)
    (holdings store).execution? id = chronicle.execution? ∧
    chronicle.lastPhase = chronicle.commits.getLast?.map Commit.phase ∧
    chronicle.commits.map Commit.phase =
      (workflow.phases.take chronicle.commits.length).map Phase.name ∧
    ∀ place phase, workflow.phases[place]? = some phase → phase.stopIfInhibited = true →
      (place < chronicle.commits.length →
        ∀ message ∈ chronicle.committedUpTo place, ¬ message.IsInhibitor) ∧
      ((∃ message ∈ chronicle.committedUpTo place, message.IsInhibitor) →
        ∀ turn, .visit turn ∈ Episode.allSteps episodes → turn.execution = id →
          ∃ earlier other, earlier ≤ place ∧ workflow.phases[earlier]? = some other ∧
            turn.phase = other.name) := by
  intro chronicle
  have sound : chronicle.Sound workflow := history.runs.sound id
  have gated : chronicle.Gated workflow := history.runs.gated id
  have held : (holdings store).execution? id = chronicle.execution? := by
    rw [history.holdings_eq]
    rfl
  refine ⟨held, sound.last_eq, sound.phases_eq, fun place phase found stops => ⟨?_, ?_⟩⟩
  · intro inside
    exact Message.not_isInhibitor_of_inhibit (gated place phase found stops inside)
  · rintro ⟨message, mem, inhibits⟩ turn made rfl
    -- The phase cannot have been committed, and what has been begun is at most the one behind
    -- the last commit.
    have outside : chronicle.commits.length ≤ place := by
      by_contra inside
      exact Message.not_isInhibitor_of_inhibit
        (gated place phase found stops (Nat.lt_of_not_le inside)) message mem inhibits
    obtain ⟨earlier, other, _, there, named, begun⟩ := history.runs.hasBegun made
    exact ⟨earlier, other, begun.le.trans outside, there, named.symm⟩

end

def Workflow.guarded : Workflow where
  name := "upgrade"
  tag := "upgrade"
  phases := [.plain "facts" "upgrade",
    { Phase.plain "check" "upgrade" with stopIfInhibited := true }, .plain "apply" "upgrade"]
  phases_ne_nil := List.cons_ne_nil _ _
  nodup_names := by decide

def Call.inhibited : Call :=
  .probing (fun view =>
    if view.phase = "facts" then Task.report (.inhibitor "old" "too old") else pure ())
    (.fresh .upgrade default) none

/-- An inhibitor that is committed in a phase without the gate stops the upgrade at the gate. -/
theorem History.stopped_by_earlier_report :
    let first := Call.inhibited.make .guarded MemoryStore.empty
    ∀ turn, .visit turn ∈ Episode.allSteps [first.1] → turn.execution = default →
      ∃ earlier other, earlier ≤ 1 ∧ Workflow.guarded.phases[earlier]? = some other ∧
        turn.phase = other.name := by
  intro first
  have history : History .guarded [first.1] first.2 :=
    (History.empty rfl).call _ (Call.namesNew_empty _)
  have inhibited : Message.inhibit ((Chronicle.ofSteps default
      (Episode.allSteps [(Call.inhibited.make .guarded MemoryStore.empty).1])).committedUpTo 1) =
        true := by decide
  have gate := (history.no_inhibitor_past_gate default).2.2.2 1 _ rfl rfl
  exact gate.2 (Message.inhibit_eq_true_iff.mp inhibited)

end PhasedUpgrade
