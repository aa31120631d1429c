import PhasedUpgrade.Actor.Registry

/-!
# Registering actors

Some actors can be registered one after the other just if they have distinct names, none of them
empty, and declare types of the catalog only. So actors that can be registered in some order can be
registered in any.
-/

namespace PhasedUpgrade

namespace Registry

variable {registry later : Registry} {actor : Actor} {actors others : List Actor}

structure Admits (registry : Registry) (actors : List Actor) : Prop where
  named : ∀ actor ∈ actors, actor.name ≠ ""
  known : ∀ actor ∈ actors, ∀ model ∈ actor.declared, registry.catalog.contains model = true
  distinct : ((registry.actors ++ actors).map (·.name)).Nodup

theorem Admits.of_perm (perm : actors.Perm others) (h : registry.Admits actors) :
    registry.Admits others where
  named actor mem := h.named actor (perm.mem_iff.mpr mem)
  known actor mem := h.known actor (perm.mem_iff.mpr mem)
  distinct := ((perm.append_left _).map _).nodup_iff.mp h.distinct

theorem contains_iff {name : String} :
    registry.contains name = true ↔ name ∈ registry.actors.map (·.name) := by
  simp [contains]

theorem eq_of_fields (catalog : later.catalog = registry.catalog)
    (actors : later.actors = registry.actors) : later = registry := by
  cases later
  cases registry
  cases catalog
  cases actors
  rfl

theorem admits_singleton_iff :
    registry.Admits [actor] ↔ actor.name ≠ "" ∧ registry.contains actor.name = false ∧
      actor.declared.find? (!registry.catalog.contains ·) = none := by
  rw [← Bool.not_eq_true, contains_iff]
  constructor
  · intro ⟨named, known, distinct⟩
    rw [List.map_append, List.nodup_append] at distinct
    refine ⟨named actor (by simp), fun there => ?_, ?_⟩
    · exact distinct.2.2 _ there _ (by simp) rfl
    · simpa using known actor (by simp)
  · intro ⟨named, new, known⟩
    refine ⟨by simpa using named, by simpa using known, nodup_concat (mt contains_iff.mp new)⟩

theorem register_eq_ok_iff :
    registry.register actor = .ok later ↔
      registry.Admits [actor] ∧ later.catalog = registry.catalog ∧
        later.actors = registry.actors ++ [actor] := by
  rw [admits_singleton_iff]
  unfold register
  split
  next unnamed => simp [unnamed]
  next named =>
    split
    next known => simp [known]
    next new =>
      split
      next missing => simp [missing]
      next known =>
        simp only [Except.ok.injEq, named, ne_eq, not_false_eq_true, new, known, true_and]
        constructor
        · rintro rfl
          exact ⟨rfl, rfl⟩
        · intro ⟨catalog, actors⟩
          refine (eq_of_fields ?_ actors).symm
          exact catalog

theorem Admits.head (h : registry.Admits (actor :: actors)) : registry.Admits [actor] where
  named := by simpa using h.named actor List.mem_cons_self
  known := by simpa using h.known actor List.mem_cons_self
  distinct := h.distinct.sublist (.map _ (.append_left (.cons_cons _ (List.nil_sublist _)) _))

theorem admits_cons_iff (first : registry.register actor = .ok later) :
    registry.Admits (actor :: actors) ↔ later.Admits actors := by
  obtain ⟨⟨named, known, _⟩, catalog, listed⟩ := register_eq_ok_iff.mp first
  have whole : later.actors ++ actors = registry.actors ++ actor :: actors := by simp [listed]
  constructor
  · intro h
    refine ⟨fun other mem => h.named other (List.mem_cons_of_mem _ mem), fun other mem => ?_, ?_⟩
    · exact catalog ▸ h.known other (List.mem_cons_of_mem _ mem)
    · exact whole ▸ h.distinct
  · intro h
    refine ⟨List.forall_mem_cons.mpr ⟨named actor (by simp), h.named⟩,
      List.forall_mem_cons.mpr ⟨known actor (by simp), catalog ▸ h.known⟩, whole ▸ h.distinct⟩

/--
All are accepted just if the demands are met, whoever comes first, and then they stand behind the
actors there were.
-/
theorem registerAll_eq_ok_iff :
    registry.registerAll actors = (later, .ok ()) ↔
      registry.Admits actors ∧ later.catalog = registry.catalog ∧
        later.actors = registry.actors ++ actors := by
  induction actors generalizing registry with
  | nil =>
      have admits : registry.Admits [] := ⟨nofun, nofun, by simpa using registry.distinct⟩
      simp only [registerAll, List.append_nil, admits, true_and, Prod.mk.injEq, and_true]
      constructor
      · rintro rfl
        exact ⟨rfl, rfl⟩
      · intro ⟨catalog, actors⟩
        exact (eq_of_fields catalog actors).symm
  | cons actor rest ih =>
      rw [registerAll]
      cases first : registry.register actor with
      | ok next =>
          obtain ⟨_, catalog, listed⟩ := register_eq_ok_iff.mp first
          simp only [ih, admits_cons_iff first, catalog, listed, List.append_assoc,
            List.singleton_append]
      | error cause =>
          have refused : ¬ registry.Admits (actor :: rest) := fun admits => by
            have distinct := admits.head.distinct
            have accepted : registry.register actor = .ok ⟨registry.catalog, _, distinct⟩ :=
              register_eq_ok_iff.mpr ⟨admits.head, rfl, rfl⟩
            cases first.symm.trans accepted
          simp [refused]

/-- Actors that can be registered in one order can be registered in any other. -/
theorem registerAll_of_perm {catalog : Catalog} (perm : actors.Perm others)
    (accepted : (empty catalog).registerAll actors = (registry, .ok ())) :
    ∃ registry', (empty catalog).registerAll others = (registry', .ok ()) ∧
      registry.catalog = registry'.catalog ∧ registry.actors.Perm registry'.actors := by
  obtain ⟨admits, rfl, same⟩ := registerAll_eq_ok_iff.mp accepted
  have admits := admits.of_perm perm
  exact ⟨⟨registry.catalog, others, admits.distinct⟩,
    registerAll_eq_ok_iff.mpr ⟨admits, rfl, rfl⟩, rfl, same ▸ perm⟩

end Registry

end PhasedUpgrade
