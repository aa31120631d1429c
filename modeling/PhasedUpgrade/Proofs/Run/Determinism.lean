import PhasedUpgrade.Proofs.Run.Trace

/-!
# Runs of deterministic actors

Two runs that are entered alike and have the same answers to give go the same way, up to the times
and the event names that they are supplied with: an actor that is settled by what it is shown cannot
tell them apart.
-/

namespace PhasedUpgrade

open Audit (Event)

/-! ## Records up to times -/

def Execution.timeless (execution : Execution) : Execution :=
  { execution with createdAt := .epoch, updatedAt := .epoch }

theorem Execution.exists_of_timeless {a b : Execution} (h : a.timeless = b.timeless) :
    ∃ created updated, b = { a with createdAt := created, updatedAt := updated } := by
  cases a
  cases b
  simp only [timeless, Execution.mk.injEq, and_true] at h
  obtain ⟨rfl, rfl, rfl, rfl, rfl, rfl, rfl, rfl, rfl⟩ := h
  exact ⟨_, _, rfl⟩

/-- Trails that say the same, one after the other. -/
def Audit.Alike (first second : List Event) : Prop :=
  first.map Event.entry = second.map Event.entry

theorem Audit.Alike.record {first second : List Event} (h : Audit.Alike first second)
    {entry entry' : Audit.Entry} (same : entry = entry') (id id' : EventId)
    (time time' : Time.Instant) :
    Audit.Alike (Audit.record first entry id time) (Audit.record second entry' id' time') := by
  unfold Audit.Alike Audit.record
  rw [List.map_append, List.map_append, h, same]
  rfl

/-- Journals that are the same up to times, event names and the hashes over them. -/
structure Journal.Alike (first second : Journal) : Prop where
  messages : Message.Alike first.messages second.messages
  audit : Audit.Alike first.audit second.audit

/-! ## Programs -/

/-- What an actor does is settled by what it is shown, times aside. -/
def Actor.Settled (actor : Actor) : Prop :=
  ∀ phase execution execution', execution.timeless = execution'.timeless →
    Program.Alike True (actor.behave ⟨actor.name, phase, execution⟩)
      (actor.behave ⟨actor.name, phase, execution'⟩)

/-- Benches that cannot be told apart but by times. -/
structure Workbench.Alike (first second : Workbench) : Prop where
  bus : first.bus.Alike second.bus
  answers_eq : first.answers = second.answers
  trail : Audit.Alike first.trail second.trail

theorem Workbench.Alike.record {bench bench' : Workbench} (h : bench.Alike bench')
    (supply supply' : Supply) {entry entry' : Audit.Entry} (same : entry = entry') :
    (bench.record supply entry).Alike (bench'.record supply' entry') :=
  ⟨h.bus, h.answers_eq, h.trail.record same _ _ _ _⟩

/-- Programs do not touch the trails of the benches that they are run on. -/
theorem Program.Alike.run_alike {α : Type} {program program' : Program α}
    (h : program.Alike True program') (supply supply' : Supply) (actor : Contract) (phase : String)
    {bench bench' : Workbench} (alike : bench.Alike bench') :
    (program.run supply actor phase bench).1 = (program'.run supply' actor phase bench').1 ∧
      (program.run supply actor phase bench).2.1.Alike
        (program'.run supply' actor phase bench').2.1 := by
  obtain ⟨same, later⟩ := h.run supply supply' actor phase ⟨alike.bus, fun _ => alike.answers_eq⟩
  refine ⟨same, later.bus, later.answers_eq trivial, ?_⟩
  rw [Program.trail_run, Program.trail_run]
  exact alike.trail

/-! ## Turns -/

/-- Turns that come to the same, up to the times of what was produced. -/
structure Visit.Alike (first second : Visit) : Prop where
  execution_eq : first.execution = second.execution
  phase_eq : first.phase = second.phase
  actor_eq : first.actor = second.actor
  result_eq : first.result = second.result
  produced : Message.Alike first.produced second.produced
  answers_eq : first.answers = second.answers

theorem Visit.Alike.outcome_eq {first second : Visit} (h : first.Alike second) :
    first.outcome = second.outcome := by
  rw [Visit.outcome, Visit.outcome, h.actor_eq, h.result_eq]

theorem Message.Alike.drop {first second : List Message} (h : Message.Alike first second)
    (count : Nat) : Message.Alike (first.drop count) (second.drop count) := by
  unfold Message.Alike
  rw [List.map_drop, List.map_drop, h]

theorem Message.Alike.take {first second : List Message} (h : Message.Alike first second)
    (count : Nat) : Message.Alike (first.take count) (second.take count) := by
  unfold Message.Alike
  rw [List.map_take, List.map_take, h]

theorem Message.Alike.length_eq {first second : List Message} (h : Message.Alike first second) :
    first.length = second.length := by
  simpa using congrArg List.length h

namespace Visit

variable {execution execution' : Execution}

theorem make_likewise {actor : Actor} (settled : actor.Settled)
    (same : execution.timeless = execution'.timeless) (supply supply' : Supply) (phase : String)
    {bench bench' : Workbench} (alike : bench.Alike bench') :
    (make supply execution phase actor bench).1.Alike
        (make supply' execution' phase actor bench').1 ∧
      (make supply execution phase actor bench).2.Alike
        (make supply' execution' phase actor bench').2 := by
  obtain ⟨created, updated, rfl⟩ := Execution.exists_of_timeless same
  have start : (startOf supply execution phase actor bench).Alike
      (startOf supply' { execution with createdAt := created, updatedAt := updated } phase actor
        bench') := alike.record supply supply' rfl
  obtain ⟨ended, later⟩ := (settled phase execution _ same).run_alike supply supply'
    actor.toContract phase start
  have label := congrArg (fun ended => entry execution phase actor.name "actor_finished"
    (ActorResult.ofEnd ended).label) ended
  refine ⟨⟨rfl, rfl, rfl, congrArg ActorResult.ofEnd ended, ?_, later.answers_eq⟩,
    later.record supply supply' label⟩
  unfold make
  simp only
  rw [← alike.bus.log.length_eq]
  exact later.bus.log.drop bench.bus.log.length

theorem makeAll_likewise {actors : List Actor} (settled : ∀ actor ∈ actors, actor.Settled)
    (same : execution.timeless = execution'.timeless) (supply supply' : Supply) (phase : String)
    (goesOn : ActorResult → Bool) {bench bench' : Workbench} (alike : bench.Alike bench') :
    List.Forall₂ Alike (makeAll supply execution phase goesOn actors bench).1
        (makeAll supply' execution' phase goesOn actors bench').1 ∧
      (makeAll supply execution phase goesOn actors bench).2.Alike
        (makeAll supply' execution' phase goesOn actors bench').2 := by
  exact makeAll_related (fun _ _ same => same.result_eq) (fun actor mem _ _ related =>
    make_likewise (settled actor mem) same supply supply' phase related) goesOn alike

end Visit

end PhasedUpgrade
