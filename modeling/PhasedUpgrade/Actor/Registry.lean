import PhasedUpgrade.Actor.Program

/-!
# Registries of actors

A registry holds actors with distinct non-empty names in the order of their registration. Every
type that one of them declares is in the catalog.
-/

namespace PhasedUpgrade

inductive RegistryError where
  | duplicateActor (actor : String)
  | unknownModel (actor model : String)
  | emptyName
deriving DecidableEq

namespace RegistryError

def kind : RegistryError → String
  | duplicateActor _ => "DuplicateActor"
  | unknownModel _ _ => "UnknownModel"
  | emptyName => "EmptyName"

def message : RegistryError → String
  | duplicateActor actor => "actor '" ++ actor ++ "' is already registered"
  | unknownModel actor model =>
      "actor '" ++ actor ++ "' declares unknown model '" ++ model ++ "'"
  | emptyName => "actor name must not be empty"

end RegistryError

/-- The actors of a run, no two of one name, and the catalog of their messages. -/
structure Registry where
  catalog : Catalog
  actors : List Actor
  distinct : (actors.map (·.name)).Nodup

namespace Registry

def empty (catalog : Catalog) : Registry := ⟨catalog, [], .nil⟩

def get? (registry : Registry) (name : String) : Option Actor :=
  registry.actors.find? (·.name == name)

def contains (registry : Registry) (name : String) : Bool :=
  registry.actors.any (·.name == name)

theorem nodup_concat {registry : Registry} {actor : Actor}
    (new : ¬ registry.contains actor.name = true) :
    ((registry.actors ++ [actor]).map (·.name)).Nodup := by
  rw [List.map_append, List.nodup_append]
  refine ⟨registry.distinct, by simp, ?_⟩
  rintro name known other own rfl
  obtain ⟨same, mem, named⟩ := List.mem_map.mp known
  refine new (List.any_eq_true.mpr ⟨same, mem, ?_⟩)
  simpa [named] using own

def register (registry : Registry) (actor : Actor) : Except RegistryError Registry :=
  if actor.name = "" then .error .emptyName
  else if known : registry.contains actor.name then .error (.duplicateActor actor.name)
  else
    match actor.declared.find? (!registry.catalog.contains ·) with
    | some model => .error (.unknownModel actor.name model)
    | none => .ok { registry with
        actors := registry.actors ++ [actor]
        distinct := nodup_concat known }

/-- Add actors in turn up to the first that is refused; those before it stay. -/
def registerAll (registry : Registry) : List Actor → Registry × Except RegistryError Unit
  | [] => (registry, .ok ())
  | actor :: rest =>
      match registry.register actor with
      | .ok registry => registry.registerAll rest
      | .error error => (registry, .error error)

end Registry

end PhasedUpgrade
