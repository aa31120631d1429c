import Mathlib.Data.List.Forall2
import PhasedUpgrade.Proofs.Dispatch.Reading

/-!
# Turns that are alike

An actor is deterministic if what it does is settled by the configuration, the phase and the
messages that it is given, whenever they were produced. Two turns of such an actor on logs that are
the same up to times come to the same and leave logs that are the same up to times.
-/

namespace PhasedUpgrade

/-! ## Messages up to times -/

namespace Message

def timeless (message : Message) : Message :=
  { message with producedAt := .epoch }

/-- Whether messages are the same up to the times at which they were produced. -/
def Alike (first second : List Message) : Prop :=
  first.map timeless = second.map timeless

def content (message : Message) : String × String × Json :=
  (message.typeName, message.topic, message.payload)

theorem Alike.append {a b c d : List Message} (h₁ : Alike a b) (h₂ : Alike c d) :
    Alike (a ++ c) (b ++ d) := by
  unfold Alike
  rw [List.map_append, List.map_append, h₁, h₂]

theorem map_timeless_filter (typeName : String) (log : List Message) :
    (log.filter (·.typeName = typeName)).map timeless =
      (log.map timeless).filter (·.typeName = typeName) := by
  rw [List.filter_map]
  rfl

theorem reports_timeless (log : List Message) : reports (log.map timeless) = reports log := by
  unfold reports
  rw [List.filter_map, List.filterMap_map]
  rfl

theorem Alike.reports_eq {a b : List Message} (h : Alike a b) : reports a = reports b := by
  rw [← reports_timeless a, ← reports_timeless b, h]

theorem content_eq_iff {draft draft' : Message} :
    draft.content = draft'.content ↔ draft.typeName = draft'.typeName ∧
      draft.topic = draft'.topic ∧ draft.payload = draft'.payload := by
  simp [content]

theorem timeless_stamped {draft draft' : Message} (same : draft.content = draft'.content)
    {producer phase : String} {sequence sequence' : Nat} (number : sequence = sequence')
    {time time' : Time.Instant} :
    (draft.stamped producer phase sequence time).timeless =
      (draft'.stamped producer phase sequence' time').timeless := by
  obtain ⟨typeName, topic, payload⟩ := content_eq_iff.mp same
  simp [stamped, timeless, typeName, topic, payload, number]

end Message

theorem Catalog.validate_of_content (catalog : Catalog) {draft draft' : Message}
    (same : draft.content = draft'.content) : catalog.validate draft = catalog.validate draft' := by
  obtain ⟨typeName, topic, payload⟩ := Message.content_eq_iff.mp same
  rw [validate, validate, typeName, topic, payload]

structure Bus.Alike (first second : Bus) : Prop where
  catalog_eq : first.catalog = second.catalog
  log : Message.Alike first.log second.log

namespace Bus.Alike

variable {first second : Bus}

theorem nextSequence_eq (h : first.Alike second) : first.nextSequence = second.nextSequence := by
  have last := congrArg (fun log => log.getLast?.map Message.sequence) h.log
  simp only [List.getLast?_map, Option.map_map] at last
  have same : Message.sequence ∘ Message.timeless = Message.sequence := rfl
  rw [same] at last
  rw [Bus.nextSequence, Bus.nextSequence, last]

/-- A draft is taken up by both or refused by both, whatever stamp it pretends. -/
theorem produce (h : first.Alike second) (actor : Contract) (phase : String)
    {draft draft' : Message} (same : draft.content = draft'.content) (time time' : Time.Instant) :
    (∃ violation, first.produce actor phase draft time = .error violation ∧
      second.produce actor phase draft' time' = .error violation) ∨
    ∃ next next', first.produce actor phase draft time = .ok next ∧
      second.produce actor phase draft' time' = .ok next' ∧ next.Alike next' := by
  obtain ⟨named, _, _⟩ := Message.content_eq_iff.mp same
  unfold Bus.produce
  rw [← named, ← h.catalog_eq, ← Catalog.validate_of_content first.catalog same]
  by_cases declared : actor.produces.contains draft.typeName = true
  · simp only [if_pos declared]
    cases first.catalog.validate draft with
    | error cause => exact .inl ⟨_, rfl, rfl⟩
    | ok _ =>
        refine .inr ⟨_, _, rfl, rfl, rfl, h.log.append (congrArg (fun last => [last]) ?_)⟩
        exact Message.timeless_stamped same h.nextSequence_eq
  · simp only [if_neg declared]
    exact .inl ⟨_, rfl, rfl⟩

end Bus.Alike

/-- What an actor is told when it asks for messages, up to times. -/
inductive Message.GivenAlike : Except ContractViolation (List Message) →
    Except ContractViolation (List Message) → Prop
  | error (violation : ContractViolation) : GivenAlike (.error violation) (.error violation)
  | ok {messages messages' : List Message} (alike : Alike messages messages') :
      GivenAlike (.ok messages) (.ok messages')

theorem Bus.Alike.consume {first second : Bus} (h : first.Alike second) (actor : Contract)
    (typeName : String) :
    Message.GivenAlike (first.consume actor typeName) (second.consume actor typeName) := by
  unfold Bus.consume
  by_cases declared : actor.consumes.contains typeName = true
  · rw [if_pos declared, if_pos declared]
    refine .ok ?_
    unfold Message.Alike Bus.messagesOf
    rw [Message.map_timeless_filter, Message.map_timeless_filter, h.log]
  · rw [if_neg declared, if_neg declared]
    exact .error _

/-! ## Programs that do the same -/

/--
Programs that produce the same drafts and ask for the same types for as long as they are told the
same, where messages are the same if they are so up to times. Remarks do not matter. If answers
count, what a program is told includes them and what it does includes recording them.
-/
inductive Program.Alike {α : Type} (answersCount : Prop) : Program α → Program α → Prop
  | done (value : α) : Alike answersCount (.done value) (.done value)
  | produce {draft draft' : Message} {next next' : Except ContractViolation Unit → Program α}
      (same : draft.content = draft'.content)
      (rest : ∀ result, Alike answersCount (next result) (next' result)) :
      Alike answersCount (.produce draft next) (.produce draft' next')
  | consume (typeName : String)
      {next next' : Except ContractViolation (List Message) → Program α}
      (rest : ∀ given given', Message.GivenAlike given given' →
        Alike answersCount (next given) (next' given')) :
      Alike answersCount (.consume typeName next) (.consume typeName next')
  | answer (counts : answersCount) (heading key : String)
      {next next' : Option Toml.Value → Program α}
      (rest : ∀ value, Alike answersCount (next value) (next' value)) :
      Alike answersCount (.answer heading key next) (.answer heading key next')
  | answerLeft {heading key : String} {next : Option Toml.Value → Program α} {other : Program α}
      (rest : ∀ value, Alike answersCount (next value) other) :
      Alike answersCount (.answer heading key next) other
  | answerRight {heading key : String} {next : Option Toml.Value → Program α} {other : Program α}
      (rest : ∀ value, Alike answersCount other (next value)) :
      Alike answersCount other (.answer heading key next)
  | recordAnswer (heading key : String) (value : Toml.Value) {next next' : Program α}
      (rest : Alike answersCount next next') :
      Alike answersCount (.recordAnswer heading key value next)
        (.recordAnswer heading key value next')
  | recordLeft (ignored : ¬ answersCount) {heading key : String} {value : Toml.Value}
      {next other : Program α} (rest : Alike answersCount next other) :
      Alike answersCount (.recordAnswer heading key value next) other
  | recordRight (ignored : ¬ answersCount) {heading key : String} {value : Toml.Value}
      {next other : Program α} (rest : Alike answersCount other next) :
      Alike answersCount other (.recordAnswer heading key value next)
  | noteLeft {key : String} {value : Json} {next other : Program α}
      (rest : Alike answersCount next other) : Alike answersCount (.note key value next) other
  | noteRight {key : String} {value : Json} {next other : Program α}
      (rest : Alike answersCount other next) : Alike answersCount other (.note key value next)

/-- What an actor does is settled by the configuration, the phase and the messages it is given. -/
def Actor.Deterministic (actor : Actor) : Prop :=
  ∀ phase execution execution', execution.configuration = execution'.configuration →
    Program.Alike False (actor.behave ⟨actor.name, phase, execution⟩)
      (actor.behave ⟨actor.name, phase, execution'⟩)

/-- Benches that tell programs the same, up to times. -/
structure Workbench.TellAlike (answersCount : Prop) (first second : Workbench) : Prop where
  bus : first.bus.Alike second.bus
  answers_eq : answersCount → first.answers = second.answers

theorem Workbench.TellAlike.produce {answersCount : Prop} {bench bench' : Workbench}
    (alike : bench.TellAlike answersCount bench') (supply supply' : Supply) (actor : Contract)
    (phase : String) {draft draft' : Message} (same : draft.content = draft'.content) :
    (bench.produce supply actor phase draft).1 = (bench'.produce supply' actor phase draft').1 ∧
      (bench.produce supply actor phase draft).2.TellAlike answersCount
        (bench'.produce supply' actor phase draft').2 := by
  unfold Workbench.produce
  rcases alike.bus.produce actor phase same (supply.time bench.used) (supply'.time bench'.used) with
    ⟨violation, refused, refused'⟩ | ⟨next, next', accepted, accepted', later⟩
  · rw [refused, refused']
    exact ⟨rfl, alike⟩
  · rw [accepted, accepted']
    exact ⟨rfl, later, alike.answers_eq⟩

/-- Alike programs on benches that tell them the same come to the same value. -/
theorem Program.Alike.run {α : Type} {answersCount : Prop} {program program' : Program α}
    (h : program.Alike answersCount program') (supply supply' : Supply) (actor : Contract)
    (phase : String) {bench bench' : Workbench} (alike : bench.TellAlike answersCount bench') :
    (program.run supply actor phase bench).1 = (program'.run supply' actor phase bench').1 ∧
      (program.run supply actor phase bench).2.1.TellAlike answersCount
        (program'.run supply' actor phase bench').2.1 := by
  induction h generalizing bench bench' with
  | done value => exact ⟨rfl, alike⟩
  | @produce draft draft' next next' same rest ih =>
      obtain ⟨told, later⟩ := alike.produce supply supply' actor phase same
      have both := ih (bench.produce supply actor phase draft).1 later
      have second : (Program.produce draft' next').run supply' actor phase bench' =
          (next' (bench'.produce supply' actor phase draft').1).run supply' actor phase
            (bench'.produce supply' actor phase draft').2 := rfl
      rw [second, ← told]
      exact both
  | consume typeName rest ih => exact ih _ _ (alike.bus.consume actor typeName) alike
  | @answer counts heading key next next' rest ih =>
      have second : (Program.answer heading key next').run supply' actor phase bench' =
          (next' (bench'.answers.get? heading key)).run supply' actor phase bench' := rfl
      rw [second, ← alike.answers_eq counts]
      exact ih (bench.answers.get? heading key) alike
  | answerLeft rest ih => exact ih _ alike
  | answerRight rest ih => exact ih _ alike
  | recordAnswer heading key value rest ih =>
      exact ih ⟨alike.bus, fun counts => congrArg (·.set heading key value)
        (alike.answers_eq counts)⟩
  | recordLeft ignored rest ih => exact ih ⟨alike.bus, fun counts => absurd counts ignored⟩
  | recordRight ignored rest ih => exact ih ⟨alike.bus, fun counts => absurd counts ignored⟩
  | noteLeft rest ih => exact ih alike
  | noteRight rest ih => exact ih alike

/-! ## Turns -/

namespace Visit

variable {execution execution' : Execution}

/-- Turns of the same actors that are related one by one, on benches that stay related. -/
theorem makeAll_related {R : Visit → Visit → Prop} {B : Workbench → Workbench → Prop}
    (result_eq : ∀ turn turn', R turn turn' → turn.result = turn'.result) {actors : List Actor}
    {supply supply' : Supply} {phase : String}
    (each : ∀ actor ∈ actors, ∀ bench bench', B bench bench' →
      R (make supply execution phase actor bench).1 (make supply' execution' phase actor bench').1 ∧
        B (make supply execution phase actor bench).2
          (make supply' execution' phase actor bench').2)
    (goesOn : ActorResult → Bool) {bench bench' : Workbench} (related : B bench bench') :
    List.Forall₂ R (makeAll supply execution phase goesOn actors bench).1
        (makeAll supply' execution' phase goesOn actors bench').1 ∧
      B (makeAll supply execution phase goesOn actors bench).2
        (makeAll supply' execution' phase goesOn actors bench').2 := by
  induction actors generalizing bench bench' with
  | nil => exact ⟨.nil, related⟩
  | cons actor rest ih =>
      obtain ⟨here, others⟩ := List.forall_mem_cons.mp each
      obtain ⟨turn, later⟩ := here bench bench' related
      obtain ⟨turns, last⟩ := ih others later
      simp only [makeAll, ← result_eq _ _ turn]
      split
      · exact ⟨.cons turn turns, last⟩
      · exact ⟨.cons turn .nil, later⟩

/-- A deterministic actor comes to the same on alike buses, and leaves alike ones. -/
theorem make_alike {actor : Actor} (deterministic : actor.Deterministic)
    (configured : execution.configuration = execution'.configuration) (supply supply' : Supply)
    (phase : String) {bench bench' : Workbench} (alike : bench.bus.Alike bench'.bus) :
    (make supply execution phase actor bench).1.outcome =
        (make supply' execution' phase actor bench').1.outcome ∧
      (make supply execution phase actor bench).2.bus.Alike
        (make supply' execution' phase actor bench').2.bus := by
  have start : (startOf supply execution phase actor bench).TellAlike False
      (startOf supply' execution' phase actor bench') := ⟨alike, False.elim⟩
  obtain ⟨same, later⟩ := (deterministic phase execution execution' configured).run supply supply'
    actor.toContract phase start
  exact ⟨congrArg (fun ended => Outcome.mk actor.name (ActorResult.ofEnd ended)) same, later.bus⟩

theorem makeAll_alike {actors : List Actor}
    (deterministic : ∀ actor ∈ actors, actor.Deterministic)
    (configured : execution.configuration = execution'.configuration) (supply supply' : Supply)
    (phase : String) (goesOn : ActorResult → Bool) {bench bench' : Workbench}
    (alike : bench.bus.Alike bench'.bus) :
    (makeAll supply execution phase goesOn actors bench).1.map outcome =
        (makeAll supply' execution' phase goesOn actors bench').1.map outcome ∧
      (makeAll supply execution phase goesOn actors bench).2.bus.Alike
        (makeAll supply' execution' phase goesOn actors bench').2.bus := by
  obtain ⟨outcomes, last⟩ := makeAll_related
    (R := fun turn turn' => turn.outcome = turn'.outcome)
    (B := fun bench bench' => bench.bus.Alike bench'.bus)
    (fun _ _ same => congrArg Outcome.result same)
    (fun actor mem _ _ related =>
      make_alike (deterministic actor mem) configured supply supply' phase related) goesOn alike
  refine ⟨?_, last⟩
  rw [← List.forall₂_eq_eq_eq, List.forall₂_map_left_iff, List.forall₂_map_right_iff]
  exact outcomes

end Visit

end PhasedUpgrade
