import Mathlib.Data.List.Sort
import PhasedUpgrade.Proofs.Dispatch.Selection

/-!
# Cycles of phases

The plan of a phase fails just if some of its actors form a ring. The actors on rings are those in
components of several actors. Of these components the one whose sorted names come first has the
least-named of all actors on rings, so the error tells whom this actor leads to and is led to by.
-/

namespace PhasedUpgrade.Dispatch

open Relation (TransGen)

/-! ## Lists in order -/

theorem head?_mergeSort {α : Type} (le : α → α → Prop) [DecidableRel le] [Std.Total le]
    [IsTrans α le]
    {first : α} {xs : List α} (h : (xs.mergeSort (le · ·)).head? = some first) :
    first ∈ xs ∧ ∀ other ∈ xs, le first other := by
  have sorted := List.pairwise_mergeSort' le xs
  obtain ⟨rest, shape⟩ := List.head?_eq_some_iff.mp h
  rw [shape, List.pairwise_cons] at sorted
  have mem_iff : ∀ other, other ∈ xs ↔ other = first ∨ other ∈ rest := fun other => by
    rw [← List.mem_mergeSort, shape, List.mem_cons]
  refine ⟨(mem_iff first).mpr (.inl rfl), fun other mem => ?_⟩
  rcases (mem_iff other).mp mem with rfl | later
  · exact (Std.Total.total other other).elim id id
  · exact sorted.1 other later

theorem le_of_cons_le {first name : String} {rest names : List String}
    (h : List.le (first :: rest) names) (sorted : names.Pairwise (· ≤ ·)) (mem : name ∈ names) :
    first ≤ name := by
  cases names with
  | nil => cases mem
  | cons head tail =>
      have below : first ≤ head := by
        rcases List.cons_le_cons_iff.mp h with below | ⟨rfl, _⟩
        · exact Std.le_of_lt below
        · exact String.le_refl _
      rcases List.mem_cons.mp mem with rfl | later
      · exact below
      · exact String.le_trans below ((List.pairwise_cons.mp sorted).1 name later)

theorem cycleMembers_spec {names : List String} {components : List (List String)}
    (mem : names ∈ components) (several : 1 < names.length) :
    ∃ least ∈ components, 1 < least.length ∧ cycleMembers components = least.mergeSort ∧
      ∀ other ∈ components, 1 < other.length → List.le least.mergeSort other.mergeSort := by
  have mem_cyclic : ∀ other, other ∈ components.filter (1 < ·.length) ↔
      other ∈ components ∧ 1 < other.length := by simp
  have among : names.mergeSort ∈
      (components.filter (1 < ·.length)).map fun names => names.mergeSort :=
    List.mem_map.mpr ⟨names, (mem_cyclic names).mpr ⟨mem, several⟩, rfl⟩
  unfold cycleMembers
  simp only
  cases found : (((components.filter (1 < ·.length)).map fun names => names.mergeSort).mergeSort
      fun names others => List.le names others).head? with
  | none =>
      rw [← List.mem_mergeSort, List.head?_eq_none_iff.mp found] at among
      cases among
  | some first =>
      have : Std.Total fun names others : List String => List.le names others := ⟨List.le_total⟩
      have : IsTrans (List String) fun names others => List.le names others :=
        ⟨fun _ _ _ => List.le_trans⟩
      obtain ⟨among, minimal⟩ := head?_mergeSort (fun names others => List.le names others) found
      obtain ⟨least, cyclic, rfl⟩ := List.mem_map.mp among
      obtain ⟨known, several⟩ := (mem_cyclic least).mp cyclic
      exact ⟨least, known, several, rfl, fun other known several =>
        minimal _ (List.mem_map.mpr ⟨other, (mem_cyclic other).mpr ⟨known, several⟩, rfl⟩)⟩

/-! ## Components -/

def sortedNames (component : List Actor) : List String :=
  (component.map (·.name)).mergeSort

variable {actor : Actor} {actors component : List Actor} {name : String}

theorem mem_sortedNames_iff :
    name ∈ sortedNames component ↔ ∃ actor ∈ component, actor.name = name :=
  List.mem_mergeSort.trans List.mem_map

theorem pairwise_sortedNames (component : List Actor) :
    (sortedNames component).Pairwise (· ≤ ·) :=
  List.pairwise_mergeSort' (· ≤ ·) _

namespace IsComponent

theorem subset (h : IsComponent actors component) : component ⊆ actors := fun actor mem =>
  ((h.mem_iff actor mem actor).mp mem).1

theorem sorted_lt (h : IsComponent actors component) (distinct : (actors.map (·.name)).Nodup) :
    (sortedNames component).Pairwise (· < ·) := by
  have names : (component.map (·.name)).Nodup := h.nodup.map_on fun first mem second mem' same =>
    eq_of_name_eq distinct (h.subset mem) (h.subset mem') same
  have apart : (sortedNames component).Nodup := List.nodup_mergeSort.mpr names
  exact (pairwise_sortedNames _).imp₂
    (fun _ _ below differ => Std.lt_of_le_of_ne below differ) apart

theorem several_iff (h : IsComponent actors component) (mem : actor ∈ component) :
    1 < component.length ↔ TransGen (Link actors) actor actor := by
  constructor
  · intro several
    obtain ⟨other, among, differ⟩ : ∃ other ∈ component, other ≠ actor := by
      by_contra same
      push Not at same
      have shape := List.eq_replicate_iff.mpr ⟨rfl, same⟩
      have few := List.nodup_replicate.mp (shape ▸ h.nodup)
      omega
    obtain ⟨_, there, back⟩ := (h.mem_iff actor mem other).mp among
    rcases Relation.reflTransGen_iff_eq_or_transGen.mp there with same | there
    · exact absurd same differ
    · exact there.trans_left back
  · intro leads
    obtain ⟨next, link, back⟩ := TransGen.head'_iff.mp leads
    have among := (h.mem_iff actor mem next).mpr ⟨link.target, .single link, back⟩
    have two : [actor, next].Nodup := by simpa using link.ne
    exact (List.subperm_of_subset two (by simp [mem, among])).length_le

theorem mem_sortedNames_iff (h : IsComponent actors component)
    (distinct : (actors.map (·.name)).Nodup) (mem : actor ∈ component) :
    name ∈ sortedNames component ↔ ∃ other ∈ actors, other.name = name ∧
      Leads actors actor other ∧ Leads actors other actor := by
  rw [Dispatch.mem_sortedNames_iff]
  simp only [leads_iff distinct]
  constructor
  · rintro ⟨other, among, named⟩
    obtain ⟨known, there, back⟩ := (h.mem_iff actor mem other).mp among
    exact ⟨other, known, named, there, back⟩
  · rintro ⟨other, known, named, there, back⟩
    exact ⟨other, (h.mem_iff actor mem other).mpr ⟨known, there, back⟩, named⟩

end IsComponent

/-! ## Plans -/

section

variable {search : Search}

theorem Search.Lawful.isCyclic_iff_ring (lawful : search.Lawful)
    (distinct : (actors.map (·.name)).Nodup) :
    search.isCyclic actors = true ↔ ∃ ring, Ring actors ring := by
  rw [lawful.isCyclic_iff distinct]
  constructor
  · rintro ⟨actor, leads⟩
    obtain ⟨ring, isRing, _⟩ := exists_ring leads
    exact ⟨ring, isRing⟩
  · rintro ⟨ring, isRing⟩
    obtain ⟨actor, mem⟩ := List.exists_mem_of_length_pos (Nat.lt_of_succ_lt isRing.several)
    exact ⟨actor, isRing.transGen distinct mem⟩

theorem Search.Lawful.exists_component (lawful : search.Lawful)
    (distinct : (actors.map (·.name)).Nodup) (leads : TransGen (Link actors) actor actor) :
    ∃ component ∈ search.components actors, actor ∈ component ∧ 1 < component.length := by
  obtain ⟨_, link, _⟩ := TransGen.head'_iff.mp leads
  obtain ⟨component, known, mem⟩ := lawful.covers distinct actor link.source
  have isComponent := lawful.isComponent distinct component known
  exact ⟨component, known, mem, (isComponent.several_iff mem).mpr leads⟩

/-- The names that are told are those of the component of the least-named actor on a ring. -/
theorem Search.Lawful.cycleMembers_spec (lawful : search.Lawful)
    (distinct : (actors.map (·.name)).Nodup) (cyclic : search.isCyclic actors = true) :
    ∃ component, IsComponent actors component ∧
      cycleMembers ((search.components actors).map (·.map (·.name))) = sortedNames component ∧
      ∃ least ∈ component, (∃ ring, Ring actors ring ∧ least ∈ ring) ∧
        ∀ ring, Ring actors ring → ∀ other ∈ ring, least.name ≤ other.name := by
  obtain ⟨start, leads⟩ := (lawful.isCyclic_iff distinct).mp cyclic
  obtain ⟨component, known, _, several⟩ := lawful.exists_component distinct leads
  have among : component.map (·.name) ∈ (search.components actors).map (·.map (·.name)) :=
    List.mem_map_of_mem known
  obtain ⟨_, among, several, members, minimal⟩ :=
    Dispatch.cycleMembers_spec among (by simpa using several)
  obtain ⟨told, known, rfl⟩ := List.mem_map.mp among
  have isComponent := lawful.isComponent distinct told known
  refine ⟨told, isComponent, members, ?_⟩
  rw [List.length_map] at several
  cases shape : sortedNames told with
  | nil =>
      have length : (sortedNames told).length = told.length := by simp [sortedNames]
      rw [shape] at length
      rw [← length] at several
      cases several
  | cons first rest =>
      obtain ⟨least, mem, rfl⟩ := mem_sortedNames_iff.mp (shape ▸ List.mem_cons_self)
      have leads := (isComponent.several_iff mem).mp several
      refine ⟨least, mem, (exists_ring_iff distinct).mpr leads, fun ring isRing other onRing => ?_⟩
      obtain ⟨component, known, mem', several⟩ :=
        lawful.exists_component distinct (isRing.transGen distinct onRing)
      have below : List.le (sortedNames told) (sortedNames component) :=
        minimal _ (List.mem_map_of_mem known) (by simpa using several)
      rw [shape] at below
      exact le_of_cons_le below (pairwise_sortedNames _)
        (mem_sortedNames_iff.mpr ⟨other, mem', rfl⟩)

theorem planWith_eq_error_iff {registry : Registry} {phase : Phase} {workflowTag : String}
    {filters : Filters} {cycle : Cycle} :
    planWith search registry phase workflowTag filters = .error cycle ↔
      search.isCyclic (eligible registry phase workflowTag filters) = true ∧
      cycle = ⟨phase.name, cycleMembers
        ((search.components (eligible registry phase workflowTag filters)).map
          (·.map (·.name)))⟩ := by
  unfold planWith order
  simp only
  cases search.isCyclic (eligible registry phase workflowTag filters) <;>
    simp [Except.mapError, eq_comm]

end

/--
A plan fails just if some of those that are to take part form a ring. Its error names the phase and,
sorted, whoever feeds and is fed by the least-named actor on a ring, be it by way of others.
-/
theorem plan_fails_iff_ring {search : Search} (lawful : search.Lawful) (registry : Registry)
    (phase : Phase) (workflowTag : String) (filters : Filters) :
    let actors := eligible registry phase workflowTag filters
    ((∃ cycle, planWith search registry phase workflowTag filters = .error cycle) ↔
      ∃ ring, Ring actors ring) ∧
    ∀ cycle, planWith search registry phase workflowTag filters = .error cycle →
      cycle.phase = phase.name ∧ cycle.members.Pairwise (· < ·) ∧
      ∃ least, (∃ ring, Ring actors ring ∧ least ∈ ring) ∧
        (∀ ring, Ring actors ring → ∀ other ∈ ring, least.name ≤ other.name) ∧
        ∀ name, name ∈ cycle.members ↔ ∃ actor ∈ actors, actor.name = name ∧
          Leads actors least actor ∧ Leads actors actor least := by
  intro actors
  have distinct := distinct_eligible registry phase workflowTag filters
  refine ⟨?_, fun cycle failed => ?_⟩
  · rw [← lawful.isCyclic_iff_ring distinct]
    simp only [planWith_eq_error_iff, exists_and_left, exists_eq, and_true]
  · obtain ⟨cyclic, rfl⟩ := planWith_eq_error_iff.mp failed
    obtain ⟨component, isComponent, members, least, mem, onRing, minimal⟩ :=
      lawful.cycleMembers_spec distinct cyclic
    rw [members]
    exact ⟨rfl, isComponent.sorted_lt distinct, least, onRing, minimal, fun name =>
      isComponent.mem_sortedNames_iff distinct mem⟩

/-- Of two rings the one of the lesser name is told, without the actors that only feed it. -/
theorem plan_fails_of_rings :
    let idle : View → Task Unit := fun _ => pure ()
    let actors : List Actor := [.tagged "first" ["seed"] ["seed", "request"] idle,
      .tagged "left" ["request", "offer"] ["reply"] idle, .tagged "right" ["reply"] ["offer"] idle,
      .tagged "ping" ["pong", "reply"] ["ping"] idle, .tagged "pong" ["ping"] ["pong"] idle]
    let registry : Registry := ⟨.builtin, actors, by decide⟩
    let phase : Phase := .plain "apply" "upgrade"
    plan registry phase "upgrade" .none = .error ⟨"apply", ["left", "right"]⟩ ∧
      ∃ least, (∀ ring, Ring actors ring → ∀ other ∈ ring, least.name ≤ other.name) ∧
        ∀ name, name ∈ ["left", "right"] ↔ ∃ actor ∈ actors, actor.name = name ∧
          Leads actors least actor ∧ Leads actors actor least := by
  intro idle actors registry phase
  have parts : (Search.exhaustive.components actors).map (·.map (·.name)) =
      [["first"], ["left", "right"], ["ping", "pong"]] := by decide
  have told :
      cycleMembers [["first"], ["left", "right"], ["ping", "pong"]] = ["left", "right"] := by
    have sorted : ["left", "right"].mergeSort = ["left", "right"] :=
      List.mergeSort_of_pairwise (by decide)
    have sorted' : ["ping", "pong"].mergeSort = ["ping", "pong"] :=
      List.mergeSort_of_pairwise (by decide)
    simp only [cycleMembers, List.filter, List.length_cons, List.length_nil, Nat.reduceAdd,
      Nat.lt_irrefl, Nat.reduceLT, decide_false, decide_true, List.map_cons, List.map_nil, sorted,
      sorted']
    rw [List.mergeSort_of_pairwise (by decide)]
    rfl
  have failed : plan registry phase "upgrade" .none = .error ⟨"apply", ["left", "right"]⟩ :=
    planWith_eq_error_iff.mpr ⟨by decide, told ▸ parts ▸ rfl⟩
  obtain ⟨_, _, least, _, minimal, members⟩ :=
    (plan_fails_iff_ring lawful_exhaustive registry phase "upgrade" .none).2 _ failed
  exact ⟨failed, least, minimal, members⟩

end PhasedUpgrade.Dispatch
