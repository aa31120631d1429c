import PhasedUpgrade.Proofs.Actor.Registration
import PhasedUpgrade.Proofs.Dispatch.Cycle
import PhasedUpgrade.Proofs.Dispatch.Whitelist
import PhasedUpgrade.Run.Perform
import PhasedUpgrade.Store.Memory

/-!
# Actors registered in another order

Which actors feed which, and so the rings and the components of their graph, does not depend on the
order in which the actors are listed. Neither does the order without delay, since there is only one.
So the plan of a phase, or the cycle that it fails with, is the same for actors listed in any order
and for any search that finds what it is to find. A run knows its actors from the plans of its
phases only, so it is the same to the last step whatever order they were registered in.
-/

namespace PhasedUpgrade

namespace Dispatch

open Relation (TransGen)

variable {actor first last : Actor} {actors others ordered ring component component' : List Actor}
  {search search' : Search}

theorem Link.of_perm (perm : actors.Perm others) (link : Link actors first last) :
    Link others first last :=
  ⟨perm.subset link.source, perm.subset link.target, link.feeds⟩

theorem link_of_perm (perm : actors.Perm others) : Link actors = Link others := by
  funext first last
  exact propext ⟨.of_perm perm, .of_perm perm.symm⟩

theorem Mutual.of_perm (perm : actors.Perm others) (mutual' : Mutual actors first last) :
    Mutual others first last :=
  ⟨link_of_perm perm ▸ mutual'.there, link_of_perm perm ▸ mutual'.back⟩

theorem Ring.of_perm (perm : actors.Perm others) (h : Ring actors ring) : Ring others ring :=
  { h with known := List.Subset.trans h.known perm.subset }

theorem IsComponent.of_perm (perm : actors.Perm others) (h : IsComponent actors component) :
    IsComponent others component where
  nodup := h.nodup
  mem_iff actor mem other := by
    rw [h.mem_iff actor mem other, perm.mem_iff]
    exact and_congr_right fun _ => ⟨.of_perm perm, .of_perm perm.symm⟩

theorem IsUndelayed.of_perm (perm : actors.Perm others) (h : IsUndelayed actors ordered) :
    IsUndelayed others ordered where
  perm := h.perm.trans perm
  forward := h.forward
  least before next after split actor later freed :=
    h.least before next after split actor later fun other known => freed other (perm.subset known)

/-! ## Sorts and cycles -/

theorem IsComponent.sortedNames_eq (h : IsComponent actors component)
    (h' : IsComponent actors component') (mem : actor ∈ component) (mem' : actor ∈ component') :
    sortedNames component = sortedNames component' := by
  have same : component.Perm component' := by
    refine (List.perm_ext_iff_of_nodup h.nodup h'.nodup).mpr fun other => ?_
    rw [h.mem_iff actor mem other, h'.mem_iff actor mem' other]
  have names : (sortedNames component).Perm (sortedNames component') :=
    (List.mergeSort_perm _ _).trans ((same.map _).trans (List.mergeSort_perm _ _).symm)
  exact names.eq_of_pairwise' (pairwise_sortedNames _) (pairwise_sortedNames _)

section

variable (lawful : search.Lawful) (lawful' : search'.Lawful)
  (distinct : (actors.map (·.name)).Nodup) (perm : actors.Perm others)

include lawful lawful' distinct perm

theorem isCyclic_of_perm : search.isCyclic actors = search'.isCyclic others := by
  have distinct' : (others.map (·.name)).Nodup := (perm.map _).nodup_iff.mp distinct
  rw [Bool.eq_iff_iff, lawful.isCyclic_iff distinct, lawful'.isCyclic_iff distinct',
    link_of_perm perm]

/-- Both searches tell of the component of the one actor whose name is the least on any ring. -/
theorem cycleMembers_of_perm (cyclic : search.isCyclic actors = true) :
    cycleMembers ((search.components actors).map (·.map (·.name))) =
      cycleMembers ((search'.components others).map (·.map (·.name))) := by
  have distinct' : (others.map (·.name)).Nodup := (perm.map _).nodup_iff.mp distinct
  have cyclic' := isCyclic_of_perm lawful lawful' distinct perm ▸ cyclic
  obtain ⟨component, isComponent, members, least, mem, ⟨ring, isRing, onRing⟩, minimal⟩ :=
    lawful.cycleMembers_spec distinct cyclic
  obtain ⟨component', isComponent', members', least', mem', ⟨ring', isRing', onRing'⟩, minimal'⟩ :=
    lawful'.cycleMembers_spec distinct' cyclic'
  have isComponent' := isComponent'.of_perm perm.symm
  have named : least.name = least'.name := String.le_antisymm
    (minimal ring' (isRing'.of_perm perm.symm) least' onRing')
    (minimal' ring (isRing.of_perm perm) least onRing)
  have same : least = least' :=
    eq_of_name_eq distinct (isComponent.subset mem) (isComponent'.subset mem') named
  rw [members, members', isComponent.sortedNames_eq isComponent' mem (same ▸ mem')]

theorem order_of_perm : order search actors = order search' others := by
  have same := isCyclic_of_perm lawful lawful' distinct perm
  have distinct' : (others.map (·.name)).Nodup := (perm.map _).nodup_iff.mp distinct
  unfold order
  rw [← same]
  cases cyclic : search.isCyclic actors with
  | true => simp only [if_true, cycleMembers_of_perm lawful lawful' distinct perm cyclic]
  | false =>
      have acyclic (actor : Actor) : ¬ TransGen (Link actors) actor actor := fun leads => by
        rw [(lawful.isCyclic_iff distinct).mpr ⟨actor, leads⟩] at cyclic
        cases cyclic
      have sorted := isUndelayed_sort distinct acyclic
      have sorted' := isUndelayed_sort distinct' (link_of_perm perm ▸ acyclic)
      simp only [Bool.false_eq_true, if_false, sorted.unique distinct (sorted'.of_perm perm.symm)]

end

theorem eligible_perm {registry registry' : Registry}
    (perm : registry.actors.Perm registry'.actors) (phase : Phase) (workflowTag : String)
    (filters : Filters) :
    (eligible registry phase workflowTag filters).Perm
      (eligible registry' phase workflowTag filters) :=
  perm.filter _

/-- A phase has the same plan, or fails with the same cycle. -/
theorem planWith_of_perm (lawful : search.Lawful) (lawful' : search'.Lawful)
    {registry registry' : Registry} (perm : registry.actors.Perm registry'.actors) (phase : Phase)
    (workflowTag : String) (filters : Filters) :
    planWith search registry phase workflowTag filters =
      planWith search' registry' phase workflowTag filters := by
  have same := order_of_perm lawful lawful' (distinct_eligible registry phase workflowTag filters)
    (eligible_perm perm phase workflowTag filters)
  simp only [planWith, same]

end Dispatch

/-! ## Runs -/

namespace Setting

open Dispatch

variable {registry registry' : Registry}

theorem plan_of_perm (workflow : Workflow) (perm : registry.actors.Perm registry'.actors)
    (filters : Filters) (start stop : Nat) :
    plan ⟨workflow, registry⟩ filters start stop =
      plan ⟨workflow, registry'⟩ filters start stop := by
  have same (phase : Phase) : Dispatch.plan registry phase workflow.tag filters =
      Dispatch.plan registry' phase workflow.tag filters :=
    planWith_of_perm lawful_exhaustive lawful_exhaustive perm phase workflow.tag filters
  simp only [plan, same]

theorem account_of_perm (workflow : Workflow) (catalog : registry.catalog = registry'.catalog)
    (perm : registry.actors.Perm registry'.actors) (supply : Supply) (options : RunOptions)
    (answers : Answers) (entry : Entry) :
    account ⟨workflow, registry⟩ supply options answers entry =
      account ⟨workflow, registry'⟩ supply options answers entry := by
  simp only [account, plan_of_perm workflow perm, catalog]

/-- For actors in another order, and for searches that may differ, the plan of each phase is the
same, or the cycle that it fails with. A run is the same as well: its result, its steps one by one,
with the turns of the actors among them, and its store, as far as the same names and times are
drawn. -/
theorem run_of_perm (catalog : registry.catalog = registry'.catalog)
    (perm : registry.actors.Perm registry'.actors) :
    (∀ search search' : Search, search.Lawful → search'.Lawful → ∀ phase workflowTag filters,
      planWith search registry phase workflowTag filters =
        planWith search' registry' phase workflowTag filters) ∧
    ∀ (σ : Type) [Store σ] (workflow : Workflow) (supply : Supply) (request : RunRequest)
      (options : RunOptions) (answers : Answers) (store : σ),
      run ⟨workflow, registry⟩ supply request options answers store =
        run ⟨workflow, registry'⟩ supply request options answers store := by
  refine ⟨fun search search' lawful lawful' => planWith_of_perm lawful lawful' perm, ?_⟩
  intro σ _ workflow supply request options answers store
  have entry : entry ⟨workflow, registry⟩ supply request store =
      entry ⟨workflow, registry'⟩ supply request store := rfl
  simp only [run, entry, account_of_perm workflow catalog perm]

/-- A reader that is registered first, or last, takes its turn behind the one that it reads. -/
theorem run_of_perm_of_reader :
    let writer : Actor := .tagged "writer" [] ["Report"] fun _ =>
      Task.report (.informational "found" "a fact")
    let reader : Actor := .tagged "reader" ["Report"] [] fun _ => pure ()
    let first : Registry := ⟨.builtin, [reader, writer], by decide⟩
    let workflow : Workflow :=
      ⟨"upgrade", "upgrade", [.plain "apply" "upgrade"], List.cons_ne_nil _ _, by decide⟩
    let run registry := Setting.run ⟨workflow, registry⟩
      ⟨fun _ => .epoch, fun _ => default, default⟩ (.fresh .upgrade default) .none .empty
      MemoryStore.empty
    (Registry.empty .builtin).registerAll [reader, writer] = (first, .ok ()) ∧
      (run first).visits.map Visit.actor = ["writer", "reader"] ∧
      ∃ second, (Registry.empty .builtin).registerAll [writer, reader] = (second, .ok ()) ∧
        run second = run first := by
  intro writer reader first workflow run
  have turns : (run first).visits.map Visit.actor = ["writer", "reader"] := by decide +revert
  have accepted : (Registry.empty .builtin).registerAll [reader, writer] = (first, .ok ()) := rfl
  obtain ⟨second, accepted', catalog, perm⟩ :=
    Registry.registerAll_of_perm (.swap writer reader []) accepted
  refine ⟨accepted, turns, second, accepted', ?_⟩
  exact ((run_of_perm catalog perm).2 MemoryStore _ _ _ _ _ _).symm

end Setting

end PhasedUpgrade
