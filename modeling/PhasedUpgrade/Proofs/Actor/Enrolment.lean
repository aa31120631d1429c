import Mathlib.Data.List.Induction
import PhasedUpgrade.Proofs.Actor.Registration
import PhasedUpgrade.Proofs.Message.Exchange
import PhasedUpgrade.Proofs.Message.Validation

/-!
# Actors that have been let in

Actors are offered to a registry one after the other. Those that are refused leave it as it is, and
those that are let in declare no type that the catalog does not know, so that no message of theirs
is refused for its type.
-/

namespace PhasedUpgrade

namespace NameSet

variable {set : NameSet} {p : String → Bool} {name : String}

theorem least_of_find? (found : set.names.find? p = some name) :
    name ∈ set ∧ p name = true ∧ ∀ other ∈ set, other < name → p other = false := by
  obtain ⟨holds, before, behind, split, none⟩ := List.find?_eq_some_iff_append.mp found
  have sorted := set.sorted
  rw [split, List.pairwise_append] at sorted
  have mem : name ∈ set.names := by simp [split]
  refine ⟨mem, holds, fun other there below => ?_⟩
  have among : other ∈ before ++ name :: behind := split ▸ there
  rcases List.mem_append.mp among with earlier | later
  · simpa using none other earlier
  · rcases List.mem_cons.mp later with rfl | later
    · exact absurd below Std.lt_irrefl
    · have above := (List.pairwise_cons.mp sorted.2.1).1 other later
      exact absurd (String.lt_trans below above) Std.lt_irrefl

end NameSet

namespace Catalog

variable {catalog : Catalog}

def Knows (catalog : Catalog) (typeName : String) : Prop :=
  ∃ schema, catalog.get? typeName = some schema

theorem contains_iff {typeName : String} :
    catalog.contains typeName = true ↔ catalog.Knows typeName :=
  Option.isSome_iff_exists

theorem contains_eq_false_iff {typeName : String} :
    catalog.contains typeName = false ↔ ¬ catalog.Knows typeName := by
  rw [← contains_iff, Bool.not_eq_true]

end Catalog

namespace Schema

theorem ne_unknownType_of_validate {schema : Schema} {payload : Json} {cause : MessageError}
    (refused : schema.validate payload = .error cause) (typeName : String) :
    cause ≠ .unknownType typeName := by
  rintro rfl
  cases payload with
  | object given =>
      obtain ⟨_, field, _, _, _, blames⟩ := checkFields_eq_error_iff.mp refused
      generalize given.lookup field.name = value at blames
      cases blames
  | null | boolean _ | integer _ | float _ | string _ | array _ => cases refused

end Schema

namespace Registry

/-! ## Single actors -/

/-- Why an actor is refused. The reasons are looked for in this order: it has no name, the name is
taken, it consumes a type that is not known, or it produces one; of several such types the least one
is reported. -/
inductive Refuses (registry : Registry) (actor : Actor) : RegistryError → Prop
  | unnamed (h : actor.name = "") : Refuses registry actor .emptyName
  | taken {other : Actor} (named : actor.name ≠ "") (there : other ∈ registry.actors)
      (same : other.name = actor.name) : Refuses registry actor (.duplicateActor actor.name)
  | consumes {model : String} (named : actor.name ≠ "")
      (free : ∀ other ∈ registry.actors, other.name ≠ actor.name)
      (declared : model ∈ actor.consumes) (unknown : ¬ registry.catalog.Knows model)
      (least : ∀ other ∈ actor.consumes, other < model → registry.catalog.Knows other) :
      Refuses registry actor (.unknownModel actor.name model)
  | produces {model : String} (named : actor.name ≠ "")
      (free : ∀ other ∈ registry.actors, other.name ≠ actor.name)
      (consumed : ∀ other ∈ actor.consumes, registry.catalog.Knows other)
      (declared : model ∈ actor.produces) (unknown : ¬ registry.catalog.Knows model)
      (least : ∀ other ∈ actor.produces, other < model → registry.catalog.Knows other) :
      Refuses registry actor (.unknownModel actor.name model)

variable {registry later : Registry} {actor : Actor} {actors : List Actor}

theorem knows_of_find? {set : NameSet}
    (none : set.names.find? (!registry.catalog.contains ·) = none) :
    ∀ model ∈ set, registry.catalog.Knows model := by
  intro model mem
  have known := List.find?_eq_none.mp none model mem
  exact Catalog.contains_iff.mp (by simpa using known)

theorem least_unknown_of_find? {set : NameSet} {model : String}
    (found : set.names.find? (!registry.catalog.contains ·) = some model) :
    model ∈ set ∧ ¬ registry.catalog.Knows model ∧
      ∀ other ∈ set, other < model → registry.catalog.Knows other := by
  obtain ⟨mem, missing, least⟩ := NameSet.least_of_find? found
  refine ⟨mem, Catalog.contains_eq_false_iff.mp (by simpa using missing), ?_⟩
  exact fun other there below => Catalog.contains_iff.mp (by simpa using least other there below)

theorem refuses_of_register {cause : RegistryError} (h : registry.register actor = .error cause) :
    registry.Refuses actor cause := by
  unfold register at h
  split at h
  next unnamed =>
    cases h
    exact .unnamed unnamed
  next named =>
    split at h
    next known =>
      cases h
      obtain ⟨other, there, same⟩ := List.mem_map.mp (contains_iff.mp known)
      exact .taken named there same
    next new =>
      have free (other : Actor) (there : other ∈ registry.actors) : other.name ≠ actor.name :=
        fun same => new (contains_iff.mpr (List.mem_map.mpr ⟨other, there, same⟩))
      split at h
      next model missing =>
        cases h
        rw [Contract.declared, List.find?_append] at missing
        cases consumed : actor.consumes.names.find? (!registry.catalog.contains ·) with
        | some first =>
            rw [consumed] at missing
            obtain rfl := Option.some.inj missing
            obtain ⟨mem, unknown, least⟩ := least_unknown_of_find? consumed
            exact .consumes named free mem unknown least
        | none =>
            rw [consumed, Option.none_or] at missing
            obtain ⟨mem, unknown, least⟩ := least_unknown_of_find? missing
            exact .produces named free (knows_of_find? consumed) mem unknown least
      next => cases h

theorem Admits.not_refuses (admits : registry.Admits [actor]) (cause : RegistryError) :
    ¬ registry.Refuses actor cause := by
  intro refuses
  have known (model : String) (declared : model ∈ actor.declared) :
      registry.catalog.Knows model :=
    Catalog.contains_iff.mp (admits.known actor (List.mem_singleton_self _) model declared)
  cases refuses with
  | unnamed h => exact admits.named actor (List.mem_singleton_self _) h
  | taken named there same =>
      have distinct := admits.distinct
      rw [List.map_append, List.nodup_append] at distinct
      exact distinct.2.2 _ (List.mem_map_of_mem there) _ (List.mem_singleton_self _) same
  | consumes named free declared unknown least =>
      exact unknown (known _ (List.mem_append_left _ declared))
  | produces named free consumed declared unknown least =>
      exact unknown (known _ (List.mem_append_right _ declared))

/-! ## Actors one after the other -/

def after (registry : Registry) (actors : List Actor) : Registry :=
  actors.foldl (fun registry actor => (registry.registerAll [actor]).1) registry

theorem after_append (registry : Registry) (first second : List Actor) :
    registry.after (first ++ second) = (registry.after first).after second :=
  List.foldl_append

theorem after_singleton_of_ok (h : registry.register actor = .ok later) :
    registry.after [actor] = later := by
  simp only [after, List.foldl_cons, List.foldl_nil, registerAll, h]

theorem after_singleton_of_error {cause : RegistryError}
    (h : registry.register actor = .error cause) : registry.after [actor] = registry := by
  simp only [after, List.foldl_cons, List.foldl_nil, registerAll, h]

/-- What holds of a registry at all times: its actors have names, and the catalog has a schema for
every type that they declare. -/
structure Sound (registry : Registry) : Prop where
  named : ∀ actor ∈ registry.actors, actor.name ≠ ""
  known : ∀ actor ∈ registry.actors, ∀ model ∈ actor.declared, registry.catalog.Knows model

theorem Sound.register (sound : registry.Sound) (h : registry.register actor = .ok later) :
    later.Sound := by
  obtain ⟨admits, catalog, listed⟩ := register_eq_ok_iff.mp h
  constructor
  · rw [listed]
    exact List.forall_mem_append.mpr ⟨sound.named, admits.named⟩
  · rw [listed, catalog]
    refine List.forall_mem_append.mpr ⟨sound.known, fun actor mem model declared => ?_⟩
    exact Catalog.contains_iff.mp (admits.known actor mem model declared)

theorem after_singleton_cases (registry : Registry) (actor : Actor) :
    (∃ cause, registry.register actor = .error cause ∧ registry.after [actor] = registry) ∨
      registry.register actor = .ok (registry.after [actor]) := by
  cases offered : registry.register actor with
  | error cause => exact .inl ⟨cause, rfl, after_singleton_of_error offered⟩
  | ok later => exact .inr (by rw [after_singleton_of_ok offered])

theorem after_induction {P : List Actor → Registry → Prop} (start : P [] registry)
    (step : ∀ before actor, P before (registry.after before) →
      P (before ++ [actor]) ((registry.after before).after [actor])) (actors : List Actor) :
    P actors (registry.after actors) := by
  induction actors using List.reverseRecOn with
  | nil => exact start
  | append_singleton before actor ih =>
      rw [after_append]
      exact step before actor ih

theorem Sound.after (sound : registry.Sound) (actors : List Actor) :
    (registry.after actors).Sound := by
  refine after_induction (P := fun _ later => later.Sound) sound
    (fun before actor held => ?_) actors
  rcases after_singleton_cases (registry.after before) actor with ⟨_, _, same⟩ | accepted
  · rw [same]
    exact held
  · exact held.register accepted

theorem catalog_after (registry : Registry) (actors : List Actor) :
    (registry.after actors).catalog = registry.catalog := by
  refine after_induction (P := fun _ later => later.catalog = registry.catalog) rfl
    (fun before actor held => ?_) actors
  rcases after_singleton_cases (registry.after before) actor with ⟨_, _, same⟩ | accepted
  · rw [same, held]
  · rw [(register_eq_ok_iff.mp accepted).2.1, held]

theorem sublist_after (catalog : Catalog) (actors : List Actor) :
    ((empty catalog).after actors).actors.Sublist actors := by
  refine after_induction (P := fun offered later => later.actors.Sublist offered) .slnil
    (fun before actor held => ?_) actors
  rcases after_singleton_cases ((empty catalog).after before) actor with ⟨_, _, same⟩ | accepted
  · rw [same]
    exact held.trans (List.sublist_append_left ..)
  · rw [(register_eq_ok_iff.mp accepted).2.2]
    exact held.append (List.Sublist.refl _)

theorem sound_after (catalog : Catalog) (actors : List Actor) :
    ((empty catalog).after actors).Sound :=
  Sound.after ⟨fun _ mem => absurd mem List.not_mem_nil, fun _ mem => absurd mem List.not_mem_nil⟩
    actors

/-! ## What they produce -/

/--
A draft of a registered actor may have a type that the actor does not declare, another topic than
its type or a payload that does not fit, but never a type that the catalog does not know.
-/
theorem Sound.ne_unknownType_of_produce (sound : registry.Sound) (mem : actor ∈ registry.actors)
    {bus : Bus} (same : bus.catalog = registry.catalog) {draft : Message}
    {violation : ContractViolation} (refuses : bus.Refuses actor.toContract draft violation)
    (typeName : String) : violation ≠ .invalidMessage actor.name (.unknownType typeName) := by
  cases refuses with
  | undeclared h => exact nofun
  | unknown declared h =>
      -- an actor that declares the type has not been let in
      obtain ⟨schema, known⟩ := sound.known actor mem _ (List.mem_append_right _ declared)
      rw [same, known] at h
      cases h
  | astray declared known h => exact nofun
  | unfit declared known topic h =>
      intro other
      injection other with _ cause
      exact Schema.ne_unknownType_of_validate h typeName cause

/--
Whatever actors are offered to a registry, each is put behind the others or refused for the first
reason that there is, and then the registry stays as it is. The actors that are registered have
distinct names, none of them empty, and the catalog knows every type that they declare. So a draft
of theirs that the bus refuses has an undeclared type, a wrong topic or a payload that does not fit,
but never an unknown type.
-/
theorem enrolment_spec (catalog : Catalog) (actors : List Actor) :
    (∀ before actor behind, actors = before ++ actor :: behind →
      let held := (empty catalog).after before
      let later := (empty catalog).after (before ++ [actor])
      (∃ cause, held.register actor = .error cause ∧ held.Refuses actor cause ∧ later = held) ∨
        held.register actor = .ok later ∧ (∀ cause, ¬ held.Refuses actor cause) ∧
          later.actors = held.actors ++ [actor]) ∧
    let registry := (empty catalog).after actors
    registry.catalog = catalog ∧ registry.actors.Sublist actors ∧
      (registry.actors.map (·.name)).Nodup ∧ (∀ actor ∈ registry.actors, actor.name ≠ "") ∧
      (∀ actor ∈ registry.actors, ∀ model,
        model ∈ actor.consumes ∨ model ∈ actor.produces → catalog.Knows model) ∧
      ∀ actor ∈ registry.actors, ∀ (bus : Bus) phase draft time violation,
        bus.catalog = catalog → bus.produce actor.toContract phase draft time = .error violation →
        bus.Refuses actor.toContract draft violation ∧
          ∀ typeName, violation ≠ .invalidMessage actor.name (.unknownType typeName) := by
  have sound := sound_after catalog actors
  have catalog_eq := catalog_after (empty catalog) actors
  refine ⟨fun before actor _ _ => ?_, catalog_eq, sublist_after catalog actors,
    Registry.distinct _, sound.named, fun actor mem model declared => ?_, ?_⟩
  · dsimp only
    rw [after_append]
    rcases after_singleton_cases ((empty catalog).after before) actor with
      ⟨cause, refused, same⟩ | accepted
    · exact .inl ⟨cause, refused, refuses_of_register refused, same⟩
    · obtain ⟨admits, _, listed⟩ := register_eq_ok_iff.mp accepted
      exact .inr ⟨accepted, admits.not_refuses, listed⟩
  · have known := sound.known actor mem model (List.mem_append.mpr declared)
    rwa [catalog_eq] at known
  · intro actor mem bus phase draft time violation same refused
    rcases bus.produce_cases actor.toContract phase draft time with
      ⟨_, accepted⟩ | ⟨_, refuses, told⟩
    · cases accepted.symm.trans refused
    · cases told.symm.trans refused
      exact ⟨refuses, sound.ne_unknownType_of_produce mem (same.trans catalog_eq.symm) refuses⟩

end Registry

end PhasedUpgrade
