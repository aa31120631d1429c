import PhasedUpgrade.Dispatch.Selection
import PhasedUpgrade.Proofs.Dispatch.Order
import PhasedUpgrade.Proofs.Dispatch.Search

/-!
# Actors of plans

The plan of a phase holds whoever is to take part in it, in the least order in which everyone comes
behind those that feed it.
-/

namespace PhasedUpgrade

def Actor.tagged (name : String) (consumes produces : List String) (behave : View → Task Unit) :
    Actor where
  name := name
  description := ""
  consumes := .ofList consumes
  produces := .ofList produces
  tags := .ofList ["upgrade"]
  experimental := false
  behave := behave

namespace Dispatch

/-- Whether an actor is to take part in a phase of a workflow. -/
structure TakesPart (registry : Registry) (phase : Phase) (workflowTag : String)
    (filters : Filters) (actor : Actor) : Prop where
  registered : actor ∈ registry.actors
  ofWorkflow : workflowTag ∈ actor.tags
  ofPhase : phase.tag ∈ actor.tags
  /-- Experimental actors are let through by name only. -/
  trusted : actor.experimental = true → actor.name ∈ filters.whitelist
  wanted : ∀ tags, filters.onlyWithTags = some tags → ∃ tag, tag ∈ tags ∧ tag ∈ actor.tags

variable {search : Search} {registry : Registry} {phase : Phase} {workflowTag : String}
  {filters : Filters} {actor : Actor} {ordered : List Actor}

theorem admits_iff {contract : Contract} :
    filters.admits contract = true ↔
      (contract.experimental = true → contract.name ∈ filters.whitelist) ∧
      ∀ tags, filters.onlyWithTags = some tags → ∃ tag, tag ∈ tags ∧ tag ∈ contract.tags := by
  unfold Filters.admits
  rw [Bool.and_eq_true]
  refine and_congr ?_ ?_
  · cases contract.experimental <;> simp [NameSet.contains_iff]
  · cases filters.onlyWithTags with
    | none => simp
    | some tags => simp [NameSet.meets_iff]

theorem mem_eligible_iff :
    actor ∈ eligible registry phase workflowTag filters ↔
      TakesPart registry phase workflowTag filters actor := by
  unfold eligible Contract.hasTag
  simp only [List.mem_filter, Bool.and_eq_true, NameSet.contains_iff, admits_iff]
  exact ⟨fun ⟨known, ⟨workflow, phase⟩, trusted, wanted⟩ =>
    ⟨known, workflow, phase, trusted, wanted⟩,
    fun ⟨known, workflow, phase, trusted, wanted⟩ => ⟨known, ⟨workflow, phase⟩, trusted, wanted⟩⟩

theorem distinct_eligible (registry : Registry) (phase : Phase) (workflowTag : String)
    (filters : Filters) :
    ((eligible registry phase workflowTag filters).map (·.name)).Nodup :=
  registry.distinct.sublist (List.filter_sublist.map _)

theorem planWith_eq_ok_iff :
    planWith search registry phase workflowTag filters = .ok ordered ↔
      search.isCyclic (eligible registry phase workflowTag filters) = false ∧
      (sort (eligible registry phase workflowTag filters)).sorted = ordered := by
  unfold planWith order
  simp only
  cases search.isCyclic (eligible registry phase workflowTag filters) <;> simp [Except.mapError]

theorem isOrder_of_plan (lawful : search.Lawful)
    (h : planWith search registry phase workflowTag filters = .ok ordered) :
    IsOrder (eligible registry phase workflowTag filters) ordered := by
  obtain ⟨acyclic, rfl⟩ := planWith_eq_ok_iff.mp h
  have distinct := distinct_eligible registry phase workflowTag filters
  refine isOrder_sort distinct fun actor leads => ?_
  rw [(lawful.isCyclic_iff distinct).mpr ⟨actor, leads⟩] at acyclic
  cases acyclic

theorem mem_of_plan (h : planWith search registry phase workflowTag filters = .ok ordered)
    (mem : actor ∈ ordered) : actor ∈ registry.actors := by
  obtain ⟨_, rfl⟩ := planWith_eq_ok_iff.mp h
  have sound := sound_sort (distinct_eligible registry phase workflowTag filters)
  exact (mem_eligible_iff.mp (sound.known actor mem)).registered

/--
A plan holds whoever is to take part, each once and behind all that feed it, and no other list of
them that does so has lesser names. The counters of the sort never come below zero on the way.
-/
theorem plan_least (lawful : search.Lawful)
    (h : planWith search registry phase workflowTag filters = .ok ordered) :
    let actors := eligible registry phase workflowTag filters
    (∀ actor, actor ∈ ordered ↔ TakesPart registry phase workflowTag filters actor) ∧
    (ordered.map (·.name)).Nodup ∧
    IsOrder actors ordered ∧
    (∀ other, IsOrder actors other → List.le (ordered.map (·.name)) (other.map (·.name))) ∧
    ∀ count, ∀ counter ∈ (Sorting.putAll count (.start actors)).counters, 0 ≤ counter.2 := by
  intro actors
  have distinct := distinct_eligible registry phase workflowTag filters
  have isOrder := isOrder_of_plan lawful h
  refine ⟨fun actor => ?_, ?_, isOrder, fun other => ?_, fun count counter mem => ?_⟩
  · rw [isOrder.perm.mem_iff]
    exact mem_eligible_iff
  · exact (isOrder.perm.map (·.name)).nodup_iff.mpr distinct
  · obtain ⟨_, rfl⟩ := planWith_eq_ok_iff.mp h
    exact sort_le distinct
  · have sound := (Sorting.sound_start actors).putAll distinct count
    rw [sound.counters_eq] at mem
    obtain ⟨actor, _, rfl⟩ := List.mem_map.mp mem
    exact Int.natCast_nonneg _

/-- Without the message that it waits for an actor comes last, though its name comes first. -/
theorem plan_least_of_consumer :
    let idle : View → Task Unit := fun _ => pure ()
    let actors : List Actor := [.tagged "consumer" ["facts"] [] idle,
      .tagged "producer" [] ["facts"] idle, .tagged "other" [] [] idle]
    let registry : Registry := ⟨.builtin, actors, by decide⟩
    let phase : Phase := .plain "apply" "upgrade"
    ∃ ordered, plan registry phase "upgrade" .none = .ok ordered ∧
      ordered.map (·.name) = ["other", "producer", "consumer"] ∧
      ∀ other, IsOrder actors other →
        List.le ["other", "producer", "consumer"] (other.map (·.name)) := by
  intro idle actors registry phase
  have names : (plan registry phase "upgrade" .none).toOption.map (·.map (·.name)) =
      some ["other", "producer", "consumer"] := by decide
  cases planned : plan registry phase "upgrade" .none with
  | error cycle => simp [planned, Except.toOption] at names
  | ok ordered =>
      have named : ordered.map (·.name) = ["other", "producer", "consumer"] := by
        simpa [planned, Except.toOption] using names
      refine ⟨ordered, rfl, named, ?_⟩
      rw [← named]
      exact (plan_least lawful_exhaustive planned).2.2.2.1

end Dispatch

end PhasedUpgrade
