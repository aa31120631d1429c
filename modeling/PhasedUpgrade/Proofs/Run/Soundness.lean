import Mathlib.Data.List.Nodup
import PhasedUpgrade.Proofs.Run.History

/-!
# Sound chronicles

However the runs of a workflow are cut off, the record of an execution and its journal fit together:
phases have been committed in order, the record names the last of them, and the journal begins with
what they produced (`Chronicle.Sound`). A run can therefore go on behind the last commit, and each
write behind an attempt leaves the chronicle sound.
-/

namespace PhasedUpgrade

/-! ## Places of phases -/

namespace Workflow

variable {workflow : Workflow} {place : Nat} {phase : Phase}

theorem place_unique {other : Phase} {place' : Nat} (h : workflow.phases[place]? = some phase)
    (h' : workflow.phases[place']? = some other) (same : phase.name = other.name) :
    place = place' := by
  have inside := (List.getElem?_eq_some_iff.mp h).1
  refine (List.getElem?_inj (by simpa using inside) workflow.nodup_names).mp ?_
  rw [List.getElem?_map, List.getElem?_map, h, h', Option.map_some, Option.map_some, same]

theorem position?_eq (h : workflow.phases[place]? = some phase) :
    workflow.position? phase.name = some place := by
  obtain ⟨inside, rfl⟩ := List.getElem?_eq_some_iff.mp h
  unfold position?
  rw [List.findIdx?_eq_some_iff_getElem]
  refine ⟨inside, by simp, ?_⟩
  intro earlier before same
  have there := List.getElem?_eq_getElem (before.trans inside)
  have twice := place_unique there h (by simpa using same)
  omega

theorem placeAfter_congr {execution other : Execution}
    (h : execution.lastCompletedPhase = other.lastCompletedPhase) :
    workflow.placeAfter execution = workflow.placeAfter other := by
  unfold placeAfter
  rw [h]

theorem placeAfter_of_named {execution : Execution} (found : workflow.phases[place]? = some phase)
    (named : execution.lastCompletedPhase = some phase.name) :
    workflow.placeAfter execution = .ok (place + 1) := by
  unfold placeAfter
  rw [named]
  simp only [position?_eq found]

theorem name_not_mem_take (h : workflow.phases[place]? = some phase) :
    phase.name ∉ (workflow.phases.take place).map Phase.name := by
  intro mem
  obtain ⟨other, among, same⟩ := List.mem_map.mp mem
  obtain ⟨earlier, inside, rfl⟩ := List.mem_take_iff_getElem.mp among
  have twice := place_unique (List.getElem?_eq_getElem (by omega)) h same
  omega

/--
An execution that may be resumed was waiting for that, or the phase behind its last one may be run
again.
-/
theorem resumePlace_spec {execution : Execution} (h : workflow.resumePlace execution = .ok place) :
    execution.workflow = workflow.name ∧ workflow.placeAfter execution = .ok place ∧
      (execution.state = .awaitingReboot ∨
        execution.state ≠ .completed ∧ workflow.checkRetry execution place = .ok ()) := by
  unfold resumePlace at h
  by_cases named : execution.workflow = workflow.name
  · rw [if_neg (by simpa using named)] at h
    obtain ⟨behind, found, h⟩ := Except.exists_of_bind_eq_ok h
    have after := Except.eq_ok_of_mapError found
    cases state : execution.state <;> simp only [state] at h
    case completed => cases h
    case awaitingReboot =>
      cases h
      exact ⟨named, after, .inl rfl⟩
    all_goals
      obtain ⟨_, checked, h⟩ := Except.exists_of_bind_eq_ok h
      cases h
      exact ⟨named, after, .inr ⟨by simp, Except.eq_ok_of_mapError checked⟩⟩
  · rw [if_pos named] at h
    cases h

theorem not_completed_of_resumePlace {execution : Execution}
    (h : workflow.resumePlace execution = .ok place) : execution.state ≠ .completed := by
  rcases (resumePlace_spec h).2.2 with waits | ⟨goesOn, _⟩
  · simp [waits]
  · exact goesOn

end Workflow

/-! ## What a store never contradicts -/

/-- A record as it is written by runs of a workflow. -/
structure Execution.Underway (workflow : Workflow) (execution : Execution) : Prop where
  workflow_eq : execution.workflow = workflow.name
  started : execution.state ≠ .notStarted

namespace Chronicle

/-- What is true of the chronicle of an execution wherever its runs were cut off. -/
structure Sound (workflow : Workflow) (chronicle : Chronicle) : Prop where
  /-- Nothing comes before the first record. -/
  blank : chronicle.execution? = none → chronicle = empty
  underway : ∀ execution, chronicle.execution? = some execution → execution.Underway workflow
  phases_eq : chronicle.commits.map Commit.phase =
    (workflow.phases.take chronicle.commits.length).map Phase.name
  last_eq : chronicle.lastPhase = chronicle.commits.getLast?.map Commit.phase
  stamped : ∀ commit ∈ chronicle.commits, ∀ message ∈ commit.messages, message.phase = commit.phase
  /-- Behind the committed messages there are at most some of the phase that comes next. -/
  journal_eq : ∃ tail, chronicle.journal.messages = chronicle.committed ++ tail ∧
    ∀ message ∈ tail,
      workflow.phases[chronicle.commits.length]?.map Phase.name = some message.phase

/-- The attempt that a chronicle is in the middle of. -/
structure Tries (workflow : Workflow) (chronicle : Chronicle) (attempt : Attempt) : Prop where
  stored : chronicle.execution? = some attempt.written
  log_eq : attempt.log = chronicle.committed
  place_eq : attempt.place = chronicle.commits.length
  attempt_eq : chronicle.attempt = attempt.produced
  active : attempt.written.state = .running ∨ attempt.written.state = .resumed
  stamped : ∀ message ∈ attempt.produced,
    workflow.phases[attempt.place]?.map Phase.name = some message.phase

/-- How a chronicle looks where a run of its execution stands that found it as it was before. -/
def Matches (workflow : Workflow) (chronicle before : Chronicle) : Standing → Prop
  | .outside => chronicle = before
  | .trying attempt => chronicle.Tries workflow attempt
  | .deciding attempt next kept goesOn =>
      chronicle.Tries workflow attempt ∧ attempt.Ends workflow next kept goesOn ∧
        chronicle.journal.messages = kept
  | .over => True

namespace Sound

variable {workflow : Workflow} {chronicle : Chronicle} {execution : Execution} {place : Nat}

theorem empty (workflow : Workflow) : Chronicle.empty.Sound workflow where
  blank _ := rfl
  underway _ none := nomatch none
  phases_eq := rfl
  last_eq := rfl
  stamped _ none := nomatch none
  journal_eq := ⟨[], rfl, fun _ none => nomatch none⟩

theorem phase_eq (h : chronicle.Sound workflow) {commit : Commit}
    (found : chronicle.commits[place]? = some commit) :
    ∃ phase, workflow.phases[place]? = some phase ∧ phase.name = commit.phase := by
  have inside := (List.getElem?_eq_some_iff.mp found).1
  have names := congrArg (fun list => list[place]?) h.phases_eq
  simp only [List.getElem?_map, found, Option.map_some, List.getElem?_take_of_lt inside] at names
  exact Option.map_eq_some_iff.mp names.symm

theorem placeAfter_of_lastPhase (h : chronicle.Sound workflow)
    (last : execution.lastCompletedPhase = chronicle.lastPhase) :
    workflow.placeAfter execution = .ok chronicle.commits.length := by
  rw [h.last_eq] at last
  cases commits : chronicle.commits.getLast? with
  | none =>
      rw [commits] at last
      unfold Workflow.placeAfter
      rw [last, List.getLast?_eq_none_iff.mp commits]
      rfl
  | some commit =>
      rw [commits, Option.map_some] at last
      rw [List.getLast?_eq_getElem?] at commits
      obtain ⟨phase, found, named⟩ := h.phase_eq commits
      have inside := (List.getElem?_eq_some_iff.mp commits).1
      rw [Workflow.placeAfter_of_named found (named ▸ last), Nat.sub_add_cancel (by omega)]

theorem placeAfter_eq (h : chronicle.Sound workflow)
    (stored : chronicle.execution? = some execution) :
    workflow.placeAfter execution = .ok chronicle.commits.length := by
  refine h.placeAfter_of_lastPhase ?_
  rw [lastPhase, stored]
  rfl

theorem resumePlace_eq (h : chronicle.Sound workflow)
    (stored : chronicle.execution? = some execution)
    (placed : workflow.resumePlace execution = .ok place) : place = chronicle.commits.length := by
  have behind := (Workflow.resumePlace_spec placed).2.1
  rw [h.placeAfter_eq stored] at behind
  exact (Except.ok.inj behind).symm

theorem mem_take_of_committed (h : chronicle.Sound workflow) {message : Message}
    (mem : message ∈ chronicle.committed) :
    message.phase ∈ (workflow.phases.take chronicle.commits.length).map Phase.name := by
  obtain ⟨commit, among, inside⟩ := List.mem_flatMap.mp mem
  rw [← h.phases_eq, h.stamped commit among message inside]
  exact List.mem_map_of_mem among

/-- What a run reads back from the journal are the messages of all commits, and no others. -/
theorem committedJournal_eq (h : chronicle.Sound workflow) :
    (workflow.committedJournal chronicle.commits.length chronicle.journal).messages =
      chronicle.committed := by
  obtain ⟨tail, messages, behind⟩ := h.journal_eq
  show chronicle.journal.messages.filter _ = _
  rw [messages, List.filter_append, List.filter_eq_self.mpr, List.filter_eq_nil_iff.mpr,
    List.append_nil]
  -- The tail is of the next phase, whose name none of the committed ones has.
  · intro message mem
    obtain ⟨phase, found, named⟩ := Option.map_eq_some_iff.mp (behind message mem)
    have apart := Workflow.name_not_mem_take found
    simpa [named] using apart
  · intro message mem
    simpa using h.mem_take_of_committed mem

/-! ### Steps -/

theorem attempted (h : chronicle.Sound workflow) (stored : chronicle.execution? = some execution)
    (attempt : List Message) :
    ({ chronicle with attempt := attempt } : Chronicle).Sound workflow where
  blank nothing := nomatch stored.symm.trans nothing
  underway := h.underway
  phases_eq := h.phases_eq
  last_eq := h.last_eq
  stamped := h.stamped
  journal_eq := h.journal_eq

theorem journalled (h : chronicle.Sound workflow) (stored : chronicle.execution? = some execution)
    {journal : Journal} {tail : List Message}
    (messages : journal.messages = chronicle.committed ++ tail)
    (behind : ∀ message ∈ tail,
      workflow.phases[chronicle.commits.length]?.map Phase.name = some message.phase) :
    ({ chronicle with journal := journal } : Chronicle).Sound workflow where
  blank nothing := nomatch stored.symm.trans nothing
  underway := h.underway
  phases_eq := h.phases_eq
  last_eq := h.last_eq
  stamped := h.stamped
  journal_eq := ⟨tail, messages, behind⟩

theorem saved_of_same (h : chronicle.Sound workflow)
    (last : execution.lastCompletedPhase = chronicle.lastPhase)
    (underway : execution.Underway workflow) :
    (chronicle.saved execution).Sound workflow := by
  have commits := commits_saved_of_same last
  exact {
    blank := fun none => nomatch none
    underway := fun other same => Option.some.inj same ▸ underway
    phases_eq := by
      rw [commits]
      exact h.phases_eq
    last_eq := by
      rw [commits, ← h.last_eq, ← last]
      rfl
    stamped := by
      rw [commits]
      exact h.stamped
    journal_eq := by
      rw [committed, commits]
      exact h.journal_eq }

theorem commits_saved (h : chronicle.Sound workflow) {phase : Phase}
    (found : workflow.phases[chronicle.commits.length]? = some phase)
    (last : execution.lastCompletedPhase = some phase.name) :
    (chronicle.saved execution).commits =
      chronicle.commits ++ [⟨phase.name, chronicle.attempt⟩] := by
  refine commits_saved_of_other last ?_
  intro same
  rw [h.last_eq, List.getLast?_eq_getElem?] at same
  -- Were it the last one already, it would be at two places of the workflow.
  obtain ⟨commit, there, named⟩ := Option.map_eq_some_iff.mp same
  obtain ⟨earlier, before, called⟩ := h.phase_eq there
  have twice := Workflow.place_unique before found (called.trans named)
  have inside := (List.getElem?_eq_some_iff.mp there).1
  omega

/-- The record of the phase at the next place is written behind a journal with its messages. -/
theorem saved_of_next (h : chronicle.Sound workflow) {phase : Phase}
    (found : workflow.phases[chronicle.commits.length]? = some phase)
    (last : execution.lastCompletedPhase = some phase.name)
    (underway : execution.Underway workflow)
    (behind : ∀ message ∈ chronicle.attempt, message.phase = phase.name)
    (messages : chronicle.journal.messages = chronicle.committed ++ chronicle.attempt) :
    (chronicle.saved execution).Sound workflow := by
  have commits := h.commits_saved found last
  exact {
    blank := fun none => nomatch none
    underway := fun other same => Option.some.inj same ▸ underway
    phases_eq := by
      rw [commits, List.length_append, List.length_singleton, List.take_add_one, found,
        List.map_append, h.phases_eq]
      simp
    last_eq := by
      rw [commits, List.getLast?_concat, Option.map_some, ← last]
      rfl
    stamped := by
      rw [commits]
      intro commit mem
      rcases List.mem_append.mp mem with old | new
      · exact h.stamped commit old
      · rw [List.mem_singleton.mp new]
        exact behind
    journal_eq := by
      refine ⟨[], ?_, fun _ none => nomatch none⟩
      show chronicle.journal.messages = _
      rw [messages, committed, committed, commits]
      simp }

end Sound

end Chronicle

/-! ## Attempts -/

namespace Chronicle.Tries

variable {workflow : Workflow} {chronicle : Chronicle} {attempt : Attempt}

theorem lastPhase_eq (h : chronicle.Tries workflow attempt) :
    chronicle.lastPhase = attempt.written.lastCompletedPhase := by
  rw [lastPhase, h.stored]
  rfl

theorem underway (h : chronicle.Tries workflow attempt) (sound : chronicle.Sound workflow) :
    attempt.written.Underway workflow :=
  sound.underway _ h.stored

theorem visited (h : chronicle.Tries workflow attempt) {phase : Phase} {visit : Visit}
    (found : workflow.phases[attempt.place]? = some phase)
    (turn : visit.OfPhase attempt.written.id phase.name) :
    ({ chronicle with attempt := chronicle.attempt ++ visit.produced } : Chronicle).Tries workflow
      (attempt.extended [visit]) where
  stored := h.stored
  log_eq := h.log_eq
  place_eq := h.place_eq
  attempt_eq := by
    show chronicle.attempt ++ visit.produced = _
    rw [h.attempt_eq, Attempt.produced, Attempt.produced, Attempt.extended]
    simp
  active := h.active
  stamped message mem := by
    rw [Attempt.produced, Attempt.extended, List.flatMap_append, List.mem_append] at mem
    rcases mem with old | new
    · exact h.stamped message old
    · have named := turn.stamped message (by simpa using new)
      show workflow.phases[attempt.place]?.map Phase.name = _
      rw [found, named]
      rfl

/-- The journal that is written behind an attempt keeps the chronicle sound. -/
theorem journalled (h : chronicle.Tries workflow attempt) (sound : chronicle.Sound workflow)
    {next : Execution} {goesOn : Bool} {journal : Journal}
    (ends : attempt.Ends workflow next journal.messages goesOn) :
    ({ chronicle with journal := journal } : Chronicle).Sound workflow ∧
      ({ chronicle with journal := journal } : Chronicle).Matches workflow chronicle
        (.deciding attempt next journal.messages goesOn) := by
  have tries : ({ chronicle with journal := journal } : Chronicle).Tries workflow attempt :=
    ⟨h.stored, h.log_eq, h.place_eq, h.attempt_eq, h.active, h.stamped⟩
  refine ⟨?_, tries, ends, rfl⟩
  have unchanged (same : journal.messages = attempt.log) :
      ({ chronicle with journal := journal } : Chronicle).Sound workflow := by
    have messages : journal.messages = chronicle.committed ++ [] := by
      rw [same, h.log_eq, List.append_nil]
    exact sound.journalled h.stored messages nofun
  generalize messages : journal.messages = kept at ends
  cases ends with
  | failed found fatal time₁ time₂ => exact unchanged messages
  | closed idle time => exact unchanged messages
  | committed found gate leaves time₁ time₂ =>
      have behind := h.stamped
      rw [h.place_eq] at behind
      exact sound.journalled h.stored (by rw [messages, h.log_eq]) behind

/-- The record behind an attempt commits its phase or leaves the commits as they are. -/
theorem commits_saved (h : chronicle.Tries workflow attempt) (sound : chronicle.Sound workflow)
    {next : Execution} {kept : List Message} {goesOn : Bool}
    (ends : attempt.Ends workflow next kept goesOn) :
    (next.lastCompletedPhase = chronicle.lastPhase ∧
      (chronicle.saved next).commits = chronicle.commits ∧ kept = attempt.log) ∨
    ∃ phase, workflow.phases[chronicle.commits.length]? = some phase ∧
      next.lastCompletedPhase = some phase.name ∧
      (chronicle.saved next).commits = chronicle.commits ++ [⟨phase.name, chronicle.attempt⟩] ∧
      kept = attempt.log ++ attempt.produced := by
  cases ends with
  | failed found fatal time₁ time₂ =>
      exact .inl ⟨h.lastPhase_eq.symm, commits_saved_of_same h.lastPhase_eq.symm, rfl⟩
  | closed idle time =>
      exact .inl ⟨h.lastPhase_eq.symm, commits_saved_of_same h.lastPhase_eq.symm, rfl⟩
  | @committed phase found gate state goesOn leaves time₁ time₂ =>
      rw [h.place_eq] at found
      exact .inr ⟨phase, found, rfl, sound.commits_saved found rfl, rfl⟩

theorem recorded (h : chronicle.Tries workflow attempt) (sound : chronicle.Sound workflow)
    {next : Execution} {kept : List Message} {goesOn : Bool}
    (ends : attempt.Ends workflow next kept goesOn) (messages : chronicle.journal.messages = kept)
    (before : Chronicle) :
    (chronicle.saved next).Sound workflow ∧
      (chronicle.saved next).Matches workflow before (.afterRecord attempt next goesOn) := by
  have named := (h.underway sound).workflow_eq
  cases ends with
  | failed found fatal time₁ time₂ =>
      exact ⟨sound.saved_of_same h.lastPhase_eq.symm ⟨named, nofun⟩, trivial⟩
  | closed idle time =>
      exact ⟨sound.saved_of_same h.lastPhase_eq.symm ⟨named, nofun⟩, trivial⟩
  | @committed phase found gate state goesOn leaves time₁ time₂ =>
      have here : workflow.phases[chronicle.commits.length]? = some phase := h.place_eq ▸ found
      have commits : (chronicle.saved
          ((attempt.written.commitPhase phase.name time₁).marked state time₂)).commits =
            chronicle.commits ++ [⟨phase.name, chronicle.attempt⟩] :=
        sound.commits_saved here rfl
      refine ⟨sound.saved_of_next here rfl ⟨named, ?_⟩ ?_ ?_, ?_⟩
      · cases leaves <;> exact nofun
      · intro message mem
        have stamp := h.stamped message (h.attempt_eq ▸ mem)
        rw [found] at stamp
        exact (Option.some.inj stamp).symm
      · rw [messages, h.log_eq, h.attempt_eq]
      · cases leaves with
        | stopped => trivial
        | reboot wanted => trivial
        | onward =>
            exact {
              stored := rfl
              log_eq := by
                rw [committed, commits, List.flatMap_append]
                show attempt.log ++ attempt.produced = _
                rw [h.log_eq, ← h.attempt_eq]
                simp [committed]
              place_eq := by
                rw [commits, List.length_append, ← h.place_eq]
                rfl
              attempt_eq := rfl
              active := .inl rfl
              stamped := nofun }

end Chronicle.Tries

end PhasedUpgrade
