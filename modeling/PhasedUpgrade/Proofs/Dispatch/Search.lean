import PhasedUpgrade.Proofs.Dispatch.Ring

/-!
# Searches for cycles

Whichever search there is of the graph of some actors, it is to tell whether an actor is on a cycle,
and what its strongly connected components are (`Search.Lawful`). The exhaustive one does so: a path
that does not come twice to an actor has no more steps than there are actors.
-/

namespace PhasedUpgrade.Dispatch

open Relation (ReflTransGen TransGen)

variable {actor other first source target : Actor} {actors path sources : List Actor}
  {steps : Nat}

structure Mutual (actors : List Actor) (actor other : Actor) : Prop where
  there : ReflTransGen (Link actors) actor other
  back : ReflTransGen (Link actors) other actor

/-- A strongly connected component of the graph of some actors. -/
structure IsComponent (actors component : List Actor) : Prop where
  nodup : component.Nodup
  mem_iff : ∀ actor ∈ component, ∀ other,
    other ∈ component ↔ other ∈ actors ∧ Mutual actors actor other

/-- What a search is to find in the graph of actors of different names. -/
structure Search.Lawful (search : Search) : Prop where
  isCyclic_iff {actors : List Actor} (distinct : (actors.map (·.name)).Nodup) :
    search.isCyclic actors = true ↔ ∃ actor, TransGen (Link actors) actor actor
  isComponent {actors : List Actor} (distinct : (actors.map (·.name)).Nodup) :
    ∀ component ∈ search.components actors, IsComponent actors component
  covers {actors : List Actor} (distinct : (actors.map (·.name)).Nodup) :
    ∀ actor ∈ actors, ∃ component ∈ search.components actors, actor ∈ component

/-! ## The way from actor to actor -/

theorem mem_fedBy_iff :
    actor ∈ fedBy actors sources ↔
      actor ∈ actors ∧ ∃ source ∈ sources, feedsOther source actor = true := by
  simp [fedBy]

theorem fedBy_subset {more : List Actor} (h : sources ⊆ more) :
    fedBy actors sources ⊆ fedBy actors more := by
  intro actor mem
  obtain ⟨known, source, among, feeds⟩ := mem_fedBy_iff.mp mem
  exact mem_fedBy_iff.mpr ⟨known, source, h among, feeds⟩

theorem reachedIn_subset_succ (actors sources : List Actor) (steps : Nat) :
    reachedIn actors sources steps ⊆ reachedIn actors sources (steps + 1) := by
  induction steps with
  | zero => exact List.nil_subset _
  | succ steps ih => exact fedBy_subset (List.append_subset.mpr
      ⟨List.subset_append_left _ _, List.Subset.trans ih (List.subset_append_right _ _)⟩)

theorem reachedIn_subset {more : Nat} (h : steps ≤ more) :
    reachedIn actors sources steps ⊆ reachedIn actors sources more := by
  induction h with
  | refl => exact List.Subset.refl _
  | @step more _ ih => exact List.Subset.trans ih (reachedIn_subset_succ actors sources more)

theorem transGen_of_mem_reachedIn (known : source ∈ actors)
    (mem : target ∈ reachedIn actors [source] steps) : TransGen (Link actors) source target := by
  induction steps generalizing target with
  | zero => cases mem
  | succ steps ih =>
      obtain ⟨known', feeder, among, feeds⟩ := mem_fedBy_iff.mp mem
      rcases List.mem_append.mp among with start | further
      · rw [List.mem_singleton.mp start] at feeds
        exact .single ⟨known, known', feeds⟩
      · have leads := ih further
        obtain ⟨_, _, link⟩ := TransGen.tail'_iff.mp leads
        exact leads.tail ⟨link.target, known', feeds⟩

/-- With one step more the search comes as far from an actor as it does from those that it feeds. -/
theorem reachedIn_of_link (link : Link actors source first) :
    reachedIn actors [first] steps ⊆ reachedIn actors [source] (steps + 1) := by
  induction steps with
  | zero => exact List.nil_subset _
  | succ steps ih =>
      refine fedBy_subset (List.append_subset.mpr ⟨?_, ?_⟩)
      · have reached : first ∈ reachedIn actors [source] 1 :=
          mem_fedBy_iff.mpr ⟨link.target, source, by simp, link.feeds⟩
        have later := reachedIn_subset (Nat.le_add_left 1 steps) reached
        exact List.cons_subset.mpr ⟨List.mem_append_right _ later, List.nil_subset _⟩
      · exact List.Subset.trans ih (List.subset_append_right _ _)

theorem mem_reachedIn_of_path (linked : (source :: path).IsChain (Link actors))
    (ends : path.getLast? = some target) : target ∈ reachedIn actors [source] path.length := by
  induction path generalizing source with
  | nil => cases ends
  | cons next rest ih =>
      obtain ⟨link, linked⟩ := List.isChain_cons_cons.mp linked
      cases rest with
      | nil =>
          obtain rfl := Option.some.inj ends
          exact mem_fedBy_iff.mpr ⟨link.target, source, by simp, link.feeds⟩
      | cons => exact reachedIn_of_link link (ih linked (by simpa using ends))

theorem mem_reached_iff (known : source ∈ actors) :
    target ∈ reached actors source ↔ TransGen (Link actors) source target := by
  refine ⟨transGen_of_mem_reachedIn known, fun leads => ?_⟩
  obtain ⟨_, _, last⟩ := TransGen.tail'_iff.mp leads
  obtain ⟨next, link, leads⟩ := TransGen.head'_iff.mp leads
  obtain ⟨path, within, linked, nodup, begins, ends⟩ := exists_simple_path last.target leads
  have whole : (source :: path).IsChain (Link actors) := by
    refine linked.cons ?_
    rw [begins]
    rintro _ ⟨⟩
    exact link
  exact reachedIn_subset (List.subperm_of_subset nodup within).length_le
    (mem_reachedIn_of_path whole ends)

theorem leadsTo_iff (distinct : (actors.map (·.name)).Nodup) (known : source ∈ actors)
    (known' : target ∈ actors) :
    leadsTo actors source target = true ↔ TransGen (Link actors) source target := by
  rw [← mem_reached_iff known]
  unfold leadsTo
  simp only [List.any_eq_true, beq_iff_eq]
  constructor
  · rintro ⟨other, mem, named⟩
    obtain ⟨_, _, link⟩ := TransGen.tail'_iff.mp ((mem_reached_iff known).mp mem)
    exact eq_of_name_eq distinct link.target known' named ▸ mem
  · exact fun mem => ⟨target, mem, rfl⟩

/-! ## The exhaustive search -/

namespace Mutual

theorem refl (actors : List Actor) (actor : Actor) : Mutual actors actor actor :=
  ⟨.refl, .refl⟩

theorem symm (h : Mutual actors actor other) : Mutual actors other actor :=
  ⟨h.back, h.there⟩

theorem trans {next : Actor} (h : Mutual actors actor other) (h' : Mutual actors other next) :
    Mutual actors actor next :=
  ⟨h.there.trans h'.there, h'.back.trans h.back⟩

end Mutual

theorem connected_iff (distinct : (actors.map (·.name)).Nodup) (known : actor ∈ actors)
    (known' : other ∈ actors) :
    connected actors actor other = true ↔ Mutual actors actor other := by
  unfold connected
  rw [Bool.or_eq_true, Bool.and_eq_true, beq_iff_eq, leadsTo_iff distinct known known',
    leadsTo_iff distinct known' known]
  constructor
  · rintro (same | ⟨there, back⟩)
    · exact eq_of_name_eq distinct known known' same ▸ .refl actors actor
    · exact ⟨there.to_reflTransGen, back.to_reflTransGen⟩
  · rintro ⟨there, back⟩
    rcases Relation.reflTransGen_iff_eq_or_transGen.mp there with rfl | there
    · exact .inl rfl
    · rcases Relation.reflTransGen_iff_eq_or_transGen.mp back with rfl | back
      · exact .inl rfl
      · exact .inr ⟨there, back⟩

theorem isComponent_connected (distinct : (actors.map (·.name)).Nodup) (known : actor ∈ actors) :
    IsComponent actors (actors.filter (connected actors actor)) where
  nodup := (List.Nodup.of_map _ distinct).filter _
  mem_iff first mem other := by
    obtain ⟨known', first⟩ := List.mem_filter.mp mem
    have there := (connected_iff distinct known known').mp first
    rw [List.mem_filter]
    refine and_congr_right fun among => ?_
    rw [connected_iff distinct known among]
    exact ⟨there.symm.trans, there.trans⟩

/-- Each actor is connected with a foremost one: the first that it is connected with. -/
theorem exists_foremost (distinct : (actors.map (·.name)).Nodup) (known : actor ∈ actors) :
    ∃ leader ∈ actors, isForemost actors leader = true ∧ Mutual actors leader actor := by
  cases found : actors.find? (connected actors actor) with
  | none =>
      have alone := List.find?_eq_none.mp found actor known
      exact absurd ((connected_iff distinct known known).mpr (.refl actors actor)) alone
  | some leader =>
      have known' := List.mem_of_find?_eq_some found
      obtain ⟨meets, before, behind, shape, apart⟩ := List.find?_eq_some_iff_append.mp found
      have mutual' := (connected_iff distinct known known').mp meets
      have first : actors.find? (connected actors leader) = some leader := by
        refine List.find?_eq_some_iff_append.mpr
          ⟨(connected_iff distinct known' known').mpr (.refl actors leader), before, behind, shape,
            fun other among => ?_⟩
        have within : other ∈ actors := shape ▸ List.mem_append_left _ among
        have missed := apart other among
        rw [Bool.not_eq_true', ← Bool.not_eq_true, connected_iff distinct known within] at missed
        rw [Bool.not_eq_true', ← Bool.not_eq_true, connected_iff distinct known' within]
        exact fun there => missed (mutual'.trans there)
      exact ⟨leader, known', by simp [isForemost, first], mutual'.symm⟩

theorem lawful_exhaustive : Search.exhaustive.Lawful where
  isCyclic_iff distinct := by
    refine List.any_eq_true.trans ?_
    constructor
    · exact fun ⟨actor, known, leads⟩ => ⟨actor, (leadsTo_iff distinct known known).mp leads⟩
    · rintro ⟨actor, leads⟩
      obtain ⟨_, link, _⟩ := TransGen.head'_iff.mp leads
      exact ⟨actor, link.source, (leadsTo_iff distinct link.source link.source).mpr leads⟩
  isComponent distinct component mem := by
    obtain ⟨leader, among, rfl⟩ := List.mem_map.mp mem
    exact isComponent_connected distinct (List.mem_filter.mp among).1
  covers distinct actor known := by
    obtain ⟨leader, known', foremost, there⟩ := exists_foremost distinct known
    exact ⟨_, List.mem_map_of_mem (List.mem_filter.mpr ⟨known', foremost⟩),
      List.mem_filter.mpr ⟨known, (connected_iff distinct known' known).mpr there⟩⟩

end PhasedUpgrade.Dispatch
