import PhasedUpgrade.Actor.Registry
import PhasedUpgrade.Dispatch.Order
import PhasedUpgrade.Workflow.Basic

/-!
# Plans of phases

The plan of a phase holds the actors that carry the tags of the phase and of its workflow and that
the operator's filters let through, in the order in which they run.
-/

namespace PhasedUpgrade

/-- Actors of a phase that feed each other in a cycle. -/
structure Cycle where
  phase : String
  members : List String
deriving DecidableEq

def Cycle.message (cycle : Cycle) : String :=
  "dependency cycle in phase '" ++ cycle.phase ++ "' between: " ++
    ", ".intercalate cycle.members

structure Filters where
  /-- If given, an actor needs one of these tags. -/
  onlyWithTags : Option NameSet
  /-- The experimental actors that take part all the same. -/
  whitelist : NameSet
deriving DecidableEq, Inhabited

namespace Filters

/-- Everything but experimental actors. -/
def none : Filters := ⟨Option.none, ∅⟩

def admits (filters : Filters) (actor : Contract) : Bool :=
  (!actor.experimental || filters.whitelist.contains actor.name) &&
    match filters.onlyWithTags with
    | some tags => tags.meets actor.tags
    | .none => true

end Filters

namespace Dispatch

/-- The actors that take part in a phase, in the order of their registration. -/
def eligible (registry : Registry) (phase : Phase) (workflowTag : String) (filters : Filters) :
    List Actor :=
  registry.actors.filter fun actor =>
    actor.hasTag workflowTag && actor.hasTag phase.tag && filters.admits actor.toContract

/-- The actors of a phase in the order in which they run, if a search finds no cycle. -/
def planWith (search : Search) (registry : Registry) (phase : Phase) (workflowTag : String)
    (filters : Filters) : Except Cycle (List Actor) :=
  let actors := eligible registry phase workflowTag filters
  (order search actors).mapError fun members => ⟨phase.name, members⟩

def plan : Registry → Phase → String → Filters → Except Cycle (List Actor) :=
  planWith .exhaustive

end Dispatch

end PhasedUpgrade
