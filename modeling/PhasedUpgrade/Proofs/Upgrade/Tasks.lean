import PhasedUpgrade.Upgrade.Actors

/-!
# What the shipped actors are made of

The shipped actors put their tasks together of requests to the bus and of ends. So a property that
these have, and that tasks keep when they are put together, is one of all shipped actors.
-/

namespace PhasedUpgrade

/-- A property of requests to the bus and of ends that tasks keep when they follow each other. -/
structure Task.Compositional (P : ∀ α : Type, Task α → Prop) : Prop where
  pure {α : Type} (value : α) : P α (pure value)
  stop {α : Type} (stop : Stop) : P α (Task.stop stop)
  produce (draft : Message) : P Unit (Task.produce draft)
  consume (typeName : String) : P (List Message) (Task.consume typeName)
  bind {α β : Type} {task : Task α} {f : α → Task β} :
    P α task → (∀ value, P β (f value)) → P β (task >>= f)

namespace Task.Compositional

variable {P : ∀ α : Type, Task α → Prop}

theorem read {α : Type} (h : Compositional P) (actor : String) (model : Model α)
    (message : Message) : P α (Task.read actor model message) := by
  unfold Task.read
  cases model.read message with
  | ok value => exact h.pure value
  | error cause => exact h.stop _

theorem consumeOne {α : Type} (h : Compositional P) (actor : String) (model : Model α) :
    P (Option α) (Task.consumeOne actor model) := by
  refine h.bind (h.consume model.name) fun messages => ?_
  cases messages with
  | nil => exact h.pure none
  | cons message _ => exact h.bind (h.read actor model message) fun value => h.pure (some value)

theorem forIn {α β : Type} (h : Compositional P) (items : List α) (start : β)
    {body : α → β → Task (ForInStep β)} (each : ∀ item value, P _ (body item value)) :
    P β (forIn items start body) := by
  induction items generalizing start with
  | nil => exact h.pure start
  | cons item rest ih =>
      rw [List.forIn_cons]
      refine h.bind (each item start) fun step => ?_
      cases step with
      | done value => exact h.pure value
      | yield value => exact ih value

theorem filing (h : Compositional P) (report? : Option Report) :
    P Unit (do if let some report := report? then Task.report report) := by
  cases report? with
  | none => exact h.pure ()
  | some report => exact h.produce _

theorem requiredFacts (h : Compositional P) (view : View) :
    P Upgrade.Facts (Upgrade.requiredFacts view) := by
  refine h.bind (h.consumeOne view.actor Upgrade.Facts.model) fun found => ?_
  cases found with
  | none => exact h.stop _
  | some facts => exact h.pure facts

open Upgrade in
/-- The shipped actors put nothing else together. -/
theorem of_mem_actors (h : Compositional P) {paths : Paths} {actor : Actor}
    (mem : actor ∈ actors paths) (view : View) : P Unit (actor.behave view) := by
  have facts := h.requiredFacts view
  simp only [actors, List.mem_cons, List.not_mem_nil, or_false] at mem
  rcases mem with rfl | rfl | rfl | rfl | rfl | rfl
  · exact h.produce _
  · exact h.bind facts fun facts => h.filing (architectureReport? facts)
  · exact h.bind facts fun facts => h.filing (pathReport? paths facts)
  · refine h.bind facts fun facts => ?_
    cases facts.skipSubscription with
    | true => exact h.produce _
    | false => exact h.stop _
  · refine h.bind facts fun facts => ?_
    cases targetRepositories facts with
    | nil => exact h.produce _
    | cons first rest => exact h.produce _
  · refine h.bind (h.consume _) fun messages => ?_
    refine h.bind (h.forIn messages _ fun message _ => ?_) fun _ => h.pure ()
    exact h.bind (h.read view.actor Report.model message) fun _ => h.pure _

end Task.Compositional

end PhasedUpgrade
