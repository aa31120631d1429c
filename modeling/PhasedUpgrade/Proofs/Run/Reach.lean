import PhasedUpgrade.Proofs.Dispatch.Likeness
import PhasedUpgrade.Proofs.Run.Visits

/-!
# What executions come to

With deterministic actors it is settled from the start how far an execution gets and what it comes
to: the log that each phase finds is the same up to times however often the phase is tried, so the
first place at which the execution cannot go on is always the same, and so is what happens there.
-/

namespace PhasedUpgrade

/-! ## What is to be done -/

/--
A workflow and its actors, with what one execution is begun with and what is asked of its runs.
-/
structure Undertaking where
  setting : Setting
  configuration : Configuration
  options : RunOptions

/-- What a record says of the way that an execution has made. -/
structure Gist where
  state : ExecutionState
  lastCompletedPhase : Option String
  failedPhase : Option String
  failure : Bool
  fatalStop : Bool
deriving DecidableEq

def Execution.gist (execution : Execution) : Gist where
  state := execution.state
  lastCompletedPhase := execution.lastCompletedPhase
  failedPhase := execution.failedPhase
  failure := execution.failure
  fatalStop := execution.fatalStop

def Workflow.nameBefore (workflow : Workflow) (place : Nat) : Option String :=
  ((workflow.phases.take place).map Phase.name).getLast?

theorem Workflow.nameBefore_succ {workflow : Workflow} {place : Nat} {phase : Phase}
    (found : workflow.phases[place]? = some phase) :
    workflow.nameBefore (place + 1) = some phase.name := by
  unfold nameBefore
  rw [List.take_add_one, found, List.map_append, Option.toList_some, List.map_singleton,
    List.getLast?_concat]

namespace Verdict

/-- Whether more phases follow, in this run or behind a reboot. -/
def leadsOn : Verdict → Bool
  | onward | reboot _ => true
  | failed _ _ | inhibited _ | stopped => false

/-- What the record says behind a phase that began with no failure noted. -/
def gist (phase : String) (last : Option String) : Verdict → Gist
  | failed terminal _ => ⟨.failed, last, some phase, true, terminal⟩
  | inhibited _ => ⟨.failed, last, some phase, true, false⟩
  | stopped => ⟨.completed, some phase, none, false, false⟩
  | reboot _ => ⟨.awaitingReboot, some phase, none, false, false⟩
  | onward => ⟨.running, some phase, none, false, false⟩

theorem ofResult_alike {bus bus' : Bus} (alike : bus.Alike bus') (phase : Phase)
    (result : PhaseResult) (isLastWanted : Bool) :
    ofResult phase result bus isLastWanted = ofResult phase result bus' isLastWanted := by
  have reports : bus.reports = bus'.reports := alike.log.reports_eq
  unfold ofResult Bus.hasInhibitors
  rw [reports]

theorem gist_heeded {course : Course} {verdict : Verdict} {phase : String} {time : Time.Instant}
    {execution : Execution} {last : Option String}
    (clean : execution.gist = ⟨.running, last, none, false, false⟩)
    (noted : course.execution = verdict.note phase time execution) (supply : Supply) :
    (course.heeded supply verdict).execution.gist = verdict.gist phase last := by
  have state := congrArg Gist.state clean
  have completed := congrArg Gist.lastCompletedPhase clean
  have failed := congrArg Gist.failedPhase clean
  have failure := congrArg Gist.failure clean
  have fatal := congrArg Gist.fatalStop clean
  dsimp only [Execution.gist] at state completed failed failure fatal
  unfold Course.heeded
  cases verdict <;>
    simp [state?, Course.changed, Course.record, noted, note, Execution.marked, Execution.gist,
      gist, Execution.failPhase, Execution.commitPhase, state, completed, failure, fatal]

end Verdict

namespace Undertaking

variable (u : Undertaking) (stop : Nat)

def filters : Filters :=
  u.options.filtersFor u.configuration

def isLastWanted : Phase → Bool :=
  u.setting.workflow.isLastWanted u.options.untilPhase stop

/-- Where a run stands that is about to go through the phase at a place on a log. -/
structure MayTry (place : Nat) (log : List Message) (planned : PlannedPhase) (course : Course) :
    Prop where
  before : place < stop
  found : u.setting.workflow.phases[place]? = some planned.phase
  chosen : Dispatch.plan u.setting.registry planned.phase u.setting.workflow.tag u.filters =
    .ok planned.actors
  configured : course.execution.configuration = u.configuration
  bus_eq : course.bench.bus = ⟨u.setting.registry.catalog, log⟩
  clean : course.execution.gist =
    ⟨.running, u.setting.workflow.nameBefore place, none, false, false⟩

def trial (supply : Supply) (planned : PlannedPhase) (course : Course) : Trial :=
  course.tryPhase supply (u.isLastWanted stop) planned

variable {u : Undertaking} {stop place : Nat} {log log' : List Message}
  {planned planned' : PlannedPhase} {course course' : Course}

/-- A phase comes to the same whenever it is gone through on the same log up to times. -/
theorem trial_alike (deterministic : ∀ actor ∈ u.setting.registry.actors, actor.Deterministic)
    (h : u.MayTry stop place log planned course) (h' : u.MayTry stop place log' planned' course')
    (alike : Message.Alike log log') (supply supply' : Supply) :
    planned = planned' ∧
      (u.trial stop supply planned course).verdict =
        (u.trial stop supply' planned' course').verdict ∧
      (u.trial stop supply planned course).course.bench.bus.Alike
        (u.trial stop supply' planned' course').course.bench.bus := by
  obtain ⟨phase, actors⟩ := planned
  obtain ⟨phase', actors'⟩ := planned'
  obtain rfl : phase = phase' := Option.some.inj (h.found.symm.trans h'.found)
  obtain rfl : actors = actors' := Except.ok.inj (h.chosen.symm.trans h'.chosen)
  have known : ∀ actor ∈ actors, actor.Deterministic := fun actor mem =>
    deterministic actor (Dispatch.mem_of_plan h.chosen mem)
  have start : course.bench.bus.Alike course'.bench.bus := by
    rw [h.bus_eq, h'.bus_eq]
    exact ⟨rfl, alike⟩
  obtain ⟨outcomes, later⟩ := Visit.makeAll_alike known (h.configured.trans h'.configured.symm)
    supply supply' phase.name (ActorResult.goesOn phase.errorPolicy)
    (show (course.record supply (some phase.name) "phase_started" "").bench.bus.Alike
      (course'.record supply' (some phase.name) "phase_started" "").bench.bus from start)
  refine ⟨rfl, ?_, later⟩
  have judged := Verdict.ofResult_alike later phase
    (PhaseResult.conclude phase ((Visit.makeAll supply course.execution phase.name
      (ActorResult.goesOn phase.errorPolicy) actors
      (course.record supply (some phase.name) "phase_started" "").bench).1.map Visit.outcome))
    (u.isLastWanted stop phase)
  refine judged.trans ?_
  rw [outcomes]
  rfl

/-! ## Places that are reached -/

variable (u stop) in
/-- The places that an execution gets to, and the logs it gets there with. -/
inductive Reaches : Nat → List Message → Prop
  | start : Reaches 0 []
  | behind {place : Nat} {log : List Message} {planned : PlannedPhase} {course : Course}
      (supply : Supply) (reached : Reaches place log)
      (mayTry : u.MayTry stop place log planned course)
      (on : (u.trial stop supply planned course).verdict.leadsOn = true) :
      Reaches (place + 1) (u.trial stop supply planned course).course.bench.bus.log

namespace Reaches

theorem alike (deterministic : ∀ actor ∈ u.setting.registry.actors, actor.Deterministic)
    (h : u.Reaches stop place log) (h' : u.Reaches stop place log') : Message.Alike log log' := by
  induction h generalizing log' with
  | start =>
      cases h'
      rfl
  | behind supply _ mayTry _ ih =>
      cases h' with
      | behind supply' reached' mayTry' _ =>
          exact (trial_alike deterministic mayTry mayTry' (ih reached') supply supply').2.2.log

theorem leadsOn_of_lt {further : Nat} (h : u.Reaches stop further log) (lt : place < further) :
    ∃ log planned course supply, u.Reaches stop place log ∧
      u.MayTry stop place log planned course ∧
      (u.trial stop supply planned course).verdict.leadsOn = true := by
  induction h with
  | start => exact absurd lt (Nat.not_lt_zero place)
  | behind supply reached mayTry on ih =>
      rcases Nat.lt_succ_iff_lt_or_eq.mp lt with earlier | rfl
      · exact ih earlier
      · exact ⟨_, _, _, supply, reached, mayTry, on⟩

end Reaches

/-! ## Ends -/

variable (u stop) in
/--
What a run says that ends for good at a place with a log, and what it leaves in the record and in
the journal.
-/
inductive EndsAt (place : Nat) (log : List Message) : RunOutcome → Gist → List Message → Prop
  | whole (all : stop ≤ place) :
      EndsAt place log .completed
        ⟨.completed, u.setting.workflow.nameBefore place, none, false, false⟩ log
  | ended {planned : PlannedPhase} {course : Course} {outcome : RunOutcome} (supply : Supply)
      (mayTry : u.MayTry stop place log planned course)
      (off : (u.trial stop supply planned course).verdict.leadsOn = false)
      (ending : (u.trial stop supply planned course).verdict.outcome? planned.phase.name =
        some outcome) :
      EndsAt place log outcome
        ((u.trial stop supply planned course).verdict.gist planned.phase.name
          (u.setting.workflow.nameBefore place))
        (if (u.trial stop supply planned course).verdict.commits then
          (u.trial stop supply planned course).course.bench.bus.log else log)

namespace EndsAt

variable {outcome outcome' : RunOutcome} {gist gist' : Gist} {messages messages' : List Message}
  {place' : Nat}

/-- No execution gets past a place at which it ends. -/
theorem not_lt (deterministic : ∀ actor ∈ u.setting.registry.actors, actor.Deterministic)
    (h : u.EndsAt stop place log outcome gist messages) (reached : u.Reaches stop place log)
    (further : u.Reaches stop place' log') : ¬ place < place' := by
  intro lt
  obtain ⟨other, planned, course, supply, there, mayTry, on⟩ := further.leadsOn_of_lt lt
  cases h with
  | whole all => exact absurd mayTry.before (Nat.not_lt_of_le all)
  | ended supply' mayTry' off ending =>
      have alike := reached.alike deterministic there
      have same := (trial_alike deterministic mayTry' mayTry alike supply' supply).2.1
      rw [same, on] at off
      cases off

theorem alike (deterministic : ∀ actor ∈ u.setting.registry.actors, actor.Deterministic)
    (h : u.EndsAt stop place log outcome gist messages)
    (h' : u.EndsAt stop place log' outcome' gist' messages') (alike : Message.Alike log log') :
    outcome = outcome' ∧ gist = gist' ∧ Message.Alike messages messages' := by
  cases h with
  | whole all =>
      cases h' with
      | whole _ => exact ⟨rfl, rfl, alike⟩
      | ended _ mayTry _ _ => exact absurd mayTry.before (Nat.not_lt_of_le all)
  | ended supply mayTry off ending =>
      cases h' with
      | whole all => exact absurd mayTry.before (Nat.not_lt_of_le all)
      | ended supply' mayTry' off' ending' =>
          obtain ⟨rfl, verdict, later⟩ :=
            trial_alike deterministic mayTry mayTry' alike supply supply'
          rw [← verdict] at ending' ⊢
          refine ⟨Option.some.inj (ending.symm.trans ending'), rfl, ?_⟩
          split
          · exact later.log
          · exact alike

theorem unique (deterministic : ∀ actor ∈ u.setting.registry.actors, actor.Deterministic)
    (h : u.EndsAt stop place log outcome gist messages) (reached : u.Reaches stop place log)
    (h' : u.EndsAt stop place' log' outcome' gist' messages')
    (reached' : u.Reaches stop place' log') :
    outcome = outcome' ∧ gist = gist' ∧ Message.Alike messages messages' := by
  rcases Nat.lt_trichotomy place place' with before | rfl | behind
  · exact absurd before (h.not_lt deterministic reached reached')
  · exact h.alike deterministic h' (reached.alike deterministic reached')
  · exact absurd behind (h'.not_lt deterministic reached' reached)

end EndsAt

end Undertaking

end PhasedUpgrade
