import PhasedUpgrade.Actor.Program

/-!
# The order of actors

Producers run before the consumers of their messages. For each actor it is counted how many of those
that feed it are still to come; among the actors whose counter has come to zero, the one with the
least name is next. There is no order if actors feed each other in a cycle; what an actor feeds to
itself does not count.
-/

namespace PhasedUpgrade.Dispatch

def feedsOther (producer consumer : Actor) : Bool :=
  producer.name != consumer.name && producer.feeds consumer.toContract

def leastNamed? : List Actor → Option Actor
  | [] => none
  | actor :: rest =>
      match leastNamed? rest with
      | none => some actor
      | some least => if least.name < actor.name then some least else some actor

structure Sorting where
  /-- Each actor with the number of those that feed it and have not been put in order yet. -/
  counters : List (Actor × Int)
  /-- The actors that may be next. -/
  ready : List Actor
  /-- The actors in order so far. -/
  sorted : List Actor

namespace Sorting

def start (actors : List Actor) : Sorting :=
  let counters := actors.map fun actor => (actor, (actors.countP (feedsOther · actor) : Int))
  { counters := counters
    ready := (counters.filter (·.2 == 0)).map Prod.fst
    sorted := [] }

/-- The counter of an actor when another one has been put in order. -/
def countDown (next : Actor) (counter : Actor × Int) : Actor × Int :=
  if feedsOther next counter.1 then (counter.1, counter.2 - 1) else counter

/-- Put an actor in order; those that it was the last one to feed may be next from then on. -/
def put (sorting : Sorting) (next : Actor) : Sorting :=
  let counters := sorting.counters.map (countDown next)
  let released := counters.filter fun counter => feedsOther next counter.1 && counter.2 == 0
  { counters := counters
    ready := sorting.ready.filter (·.name != next.name) ++ released.map Prod.fst
    sorted := sorting.sorted ++ [next] }

/-- Put so many actors in order, or fewer if none may be next any more. -/
def putAll : Nat → Sorting → Sorting
  | 0, sorting => sorting
  | count + 1, sorting =>
      match leastNamed? sorting.ready with
      | none => sorting
      | some next => putAll count (sorting.put next)

end Sorting

def sort (actors : List Actor) : Sorting :=
  .putAll actors.length (.start actors)

/-! ## Searching for cycles -/

/-- A search of the graph in which each actor points to the others that it feeds. -/
structure Search where
  /-- Whether the graph of some actors has a cycle. -/
  isCyclic : List Actor → Bool
  /-- The strongly connected components of the graph of some actors. -/
  components : List Actor → List (List Actor)

def fedBy (actors sources : List Actor) : List Actor :=
  actors.filter fun actor => sources.any (feedsOther · actor)

/-- The actors that lead from some actors in at most so many steps. -/
def reachedIn (actors sources : List Actor) : Nat → List Actor
  | 0 => []
  | steps + 1 =>
      let reached := reachedIn actors sources steps
      fedBy actors (sources ++ reached)

/-- The actors that an actor leads to by feeding one after the other. -/
def reached (actors : List Actor) (actor : Actor) : List Actor :=
  reachedIn actors [actor] actors.length

/-- Whether one actor leads to another, or to itself by way of another. -/
def leadsTo (actors : List Actor) (source target : Actor) : Bool :=
  (reached actors source).any (·.name == target.name)

/-- Whether two actors are one, or each of them leads to the other. -/
def connected (actors : List Actor) (actor other : Actor) : Bool :=
  actor.name == other.name || leadsTo actors actor other && leadsTo actors other actor

/-- Whether no actor before it is connected with an actor. -/
def isForemost (actors : List Actor) (actor : Actor) : Bool :=
  (actors.find? (connected actors actor)).any (·.name == actor.name)

/-- The search that goes from each actor as far as it gets. -/
def Search.exhaustive : Search where
  isCyclic actors := actors.any fun actor => leadsTo actors actor actor
  components actors := (actors.filter (isForemost actors)).map fun actor =>
    actors.filter (connected actors actor)

/-! ## Orders and cycles -/

/-- The sorted names of a component that has a cycle: the least ones, if there are several. -/
def cycleMembers (components : List (List String)) : List String :=
  let cyclic := components.filter (1 < ·.length)
  let sorted := cyclic.map fun names => names.mergeSort
  (sorted.mergeSort fun names others => List.le names others).head?.getD []

/-- The actors in order, or the members of a cycle. -/
def order (search : Search) (actors : List Actor) : Except (List String) (List Actor) :=
  if search.isCyclic actors then
    .error (cycleMembers ((search.components actors).map (·.map (·.name))))
  else .ok (sort actors).sorted

end PhasedUpgrade.Dispatch
