import Mathlib.Data.List.Infix
import PhasedUpgrade.Proofs.Run.Course

/-!
# The protocol of runs

Which steps a run may take after which. A run first writes the record of its execution; then it
makes the visits of one phase after the other, and behind the visits of each phase it writes first
the journal and then the record. Steps that are `Admitted` keep to this protocol however far they
are taken, so what it guarantees holds wherever a run is cut off.
-/

namespace PhasedUpgrade

/-! ## The protocol -/

/--
An attempt at the phase at a place: the record that was written last, the messages that count with
it, and the visits that have been made since.
-/
structure Attempt where
  written : Execution
  log : List Message
  place : Nat
  made : List Visit

namespace Attempt

def produced (attempt : Attempt) : List Message :=
  attempt.made.flatMap Visit.produced

def extended (attempt : Attempt) (visits : List Visit) : Attempt :=
  { attempt with made := attempt.made ++ visits }

def next (attempt : Attempt) (written : Execution) : Attempt :=
  ⟨written, attempt.log ++ attempt.produced, attempt.place + 1, []⟩

/-- The state that a committed phase leaves its execution in, and whether the next one follows. -/
inductive Leaves (phase : Phase) : ExecutionState → Bool → Prop
  | onward : Leaves phase .running true
  | stopped : Leaves phase .completed false
  | reboot (wanted : phase.wantsReboot = true) : Leaves phase .awaitingReboot false

/--
The record that an attempt may end with, the messages of the journal that is written before it, and
whether the run goes on to the next phase.
-/
inductive Ends (workflow : Workflow) (attempt : Attempt) : Execution → List Message → Bool → Prop
  | failed {phase : Phase} (found : workflow.phases[attempt.place]? = some phase) (fatal : Bool)
      (time₁ time₂ : Time.Instant) :
      Ends workflow attempt
        ((attempt.written.failPhase phase.name fatal time₁).marked .failed time₂) attempt.log false
  | committed {phase : Phase} (found : workflow.phases[attempt.place]? = some phase)
      (gate : phase.stopIfInhibited = true →
        Message.inhibit (attempt.log ++ attempt.produced) = false)
      {state : ExecutionState} {goesOn : Bool} (leaves : Leaves phase state goesOn)
      (time₁ time₂ : Time.Instant) :
      Ends workflow attempt ((attempt.written.commitPhase phase.name time₁).marked state time₂)
        (attempt.log ++ attempt.produced) goesOn
  /-- After the last planned phase the execution is completed as it stands. -/
  | closed (idle : attempt.made = []) (time : Time.Instant) :
      Ends workflow attempt (attempt.written.marked .completed time) attempt.log false

theorem Ends.id_eq {workflow : Workflow} {attempt : Attempt} {next : Execution}
    {kept : List Message} {goesOn : Bool} (h : attempt.Ends workflow next kept goesOn) :
    next.id = attempt.written.id := by
  cases h <;> rfl

end Attempt

/-- The record that a run begins with: it is running, or else resumed if that is allowed. -/
inductive Entry.Opens (entry : Entry) : Execution → Prop
  | begun (fresh : entry.resumes = false) (legal : .running ∈ entry.execution.state.successors)
      (time : Time.Instant) :
      Opens entry (entry.execution.marked .running time)
  | resumed (resumes : entry.resumes = true)
      (legal : .resumed ∈ entry.execution.state.successors) (time : Time.Instant) :
      Opens entry (entry.execution.clearFailure.marked .resumed time)

def Entry.target (entry : Entry) : ExecutionState :=
  if entry.resumes then .resumed else .running

def Entry.MayOpen (entry : Entry) : Prop :=
  entry.target ∈ entry.execution.state.successors

theorem Entry.Opens.mayOpen {entry : Entry} {written : Execution} (h : entry.Opens written) :
    entry.MayOpen := by
  unfold Entry.MayOpen Entry.target
  cases h with
  | begun fresh legal time => simpa [fresh] using legal
  | resumed resumes legal time => simpa [resumes] using legal

/-- Where a run stands between two of its steps. -/
inductive Standing where
  /-- Nothing has been written. -/
  | outside
  | trying (attempt : Attempt)
  /-- The journal of an attempt has been written, its record has not. -/
  | deciding (attempt : Attempt) (next : Execution) (kept : List Message) (goesOn : Bool)
  | over

def Standing.afterRecord (attempt : Attempt) (next : Execution) : Bool → Standing
  | true => .trying (attempt.next next)
  | false => .over

/-- The steps that a run from an entry may have taken, and where it stands then. -/
inductive Progress (workflow : Workflow) (entry : Entry) : List RunStep → Standing → Prop
  | start : Progress workflow entry [] .outside
  | binding {done : List RunStep} (name value : String) :
      Progress workflow entry done .outside →
      Progress workflow entry (done ++ [.setVariable name value]) .outside
  | enter {done : List RunStep} {written : Execution} :
      Progress workflow entry done .outside → entry.Opens written →
      Progress workflow entry (done ++ [.save written])
        (.trying ⟨written, entry.journal.messages, entry.start, []⟩)
  | visit {done : List RunStep} {attempt : Attempt} {phase : Phase} {visit : Visit} :
      Progress workflow entry done (.trying attempt) →
      workflow.phases[attempt.place]? = some phase →
      visit.OfPhase attempt.written.id phase.name →
      Progress workflow entry (done ++ [.visit visit]) (.trying (attempt.extended [visit]))
  | journal {done : List RunStep} {attempt : Attempt} {next : Execution} {journal : Journal}
      {goesOn : Bool} :
      Progress workflow entry done (.trying attempt) →
      attempt.Ends workflow next journal.messages goesOn →
      Progress workflow entry (done ++ [.saveJournal attempt.written.id journal])
        (.deciding attempt next journal.messages goesOn)
  | record {done : List RunStep} {attempt : Attempt} {next : Execution} {kept : List Message}
      {goesOn : Bool} :
      Progress workflow entry done (.deciding attempt next kept goesOn) →
      Progress workflow entry (done ++ [.save next]) (.afterRecord attempt next goesOn)

/-! ## Runs keep to the protocol -/

/-- However far some steps are taken behind others, they keep to the protocol. -/
def Admitted (workflow : Workflow) (entry : Entry) (done steps : List RunStep) : Prop :=
  ∀ part, part <+: steps → ∃ standing, Progress workflow entry (done ++ part) standing

namespace Admitted

variable {workflow : Workflow} {entry : Entry} {done first second : List RunStep}
  {standing : Standing}

theorem nil (h : Progress workflow entry done standing) : Admitted workflow entry done [] := by
  intro part initial
  rw [List.prefix_nil.mp initial, List.append_nil]
  exact ⟨standing, h⟩

theorem append (h₁ : Admitted workflow entry done first)
    (h₂ : Admitted workflow entry (done ++ first) second) :
    Admitted workflow entry done (first ++ second) := by
  intro part initial
  rcases List.prefix_or_prefix_of_prefix initial (List.prefix_append first second) with
    short | ⟨rest, rfl⟩
  · exact h₁ part short
  · obtain ⟨standing, progress⟩ := h₂ rest ((List.prefix_append_right_inj first).mp initial)
    exact ⟨standing, by rwa [← List.append_assoc]⟩

theorem cons {step : RunStep} (h : Progress workflow entry done standing)
    (rest : Admitted workflow entry (done ++ [step]) second) :
    Admitted workflow entry done (step :: second) := by
  intro part initial
  cases part with
  | nil => exact nil h [] List.prefix_rfl
  | cons other part =>
      obtain ⟨rfl, later⟩ := List.cons_prefix_cons.mp initial
      obtain ⟨standing, progress⟩ := rest part later
      exact ⟨standing, by simpa using progress⟩

end Admitted

namespace Progress

variable {workflow : Workflow} {entry : Entry} {done : List RunStep} {attempt : Attempt}

theorem settings (h : Progress workflow entry done .outside) (bindings : List (String × String)) :
    Progress workflow entry (done ++ Course.setting bindings) .outside := by
  induction bindings generalizing done with
  | nil => simpa [Course.setting] using h
  | cons first rest ih =>
      have all := ih (h.binding first.1 first.2)
      simpa [Course.setting] using all

theorem settings_admitted (h : Progress workflow entry done .outside)
    (bindings : List (String × String)) :
    Admitted workflow entry done (Course.setting bindings) := by
  intro part initial
  unfold Course.setting at initial
  obtain ⟨bound, _, rfl⟩ := List.prefix_map_iff.mp initial
  exact ⟨_, h.settings bound⟩

theorem visits {phase : Phase} (h : Progress workflow entry done (.trying attempt))
    (found : workflow.phases[attempt.place]? = some phase) {visits : List Visit}
    (turns : ∀ visit ∈ visits, visit.OfPhase attempt.written.id phase.name) :
    Progress workflow entry (done ++ visits.map .visit) (.trying (attempt.extended visits)) := by
  induction visits generalizing done attempt with
  | nil => simpa [Attempt.extended] using h
  | cons first rest ih =>
      have one := h.visit found (turns first List.mem_cons_self)
      have all := ih one found fun visit mem => turns visit (List.mem_cons_of_mem _ mem)
      simpa [Attempt.extended] using all

theorem visits_admitted {phase : Phase} (h : Progress workflow entry done (.trying attempt))
    (found : workflow.phases[attempt.place]? = some phase) {visits : List Visit}
    (turns : ∀ visit ∈ visits, visit.OfPhase attempt.written.id phase.name) :
    Admitted workflow entry done (visits.map .visit) := by
  intro part initial
  obtain ⟨made, first, rfl⟩ := List.prefix_map_iff.mp initial
  exact ⟨_, h.visits found fun visit mem => turns visit (first.subset mem)⟩

theorem persisted {next : Execution} {kept : List Message} {goesOn : Bool} {course : Course}
    {count : Nat} (h : Progress workflow entry done (.trying attempt))
    (ends : attempt.Ends workflow next kept goesOn) (record : course.execution = next)
    (named : next.id = attempt.written.id) (messages : course.bench.bus.log.take count = kept) :
    Admitted workflow entry done (course.persisted count) ∧
      Progress workflow entry (done ++ course.persisted count)
        (.afterRecord attempt next goesOn) := by
  have journal : Progress workflow entry
      (done ++ [.saveJournal course.execution.id ⟨course.bench.bus.log.take count,
        course.bench.trail⟩]) (.deciding attempt next kept goesOn) := by
    subst messages
    rw [record, named]
    exact h.journal ends
  have whole := journal.record
  rw [List.append_assoc, List.singleton_append] at whole
  subst record
  exact ⟨.cons h (.cons journal (.nil journal.record)), whole⟩

end Progress

end PhasedUpgrade
