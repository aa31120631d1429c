import Mathlib.Data.List.Nodup
import Mathlib.Data.List.Perm.Subperm
import PhasedUpgrade.Dispatch.Order

/-!
# Sorts of actors

Wherever a sort stands, its counters say for each actor how many of those that feed it are still to
come, and just the actors without such a one may be next (`Sorting.Sound`). Putting one of these in
order keeps that, so a sort that comes to its end with no actor left over has put each one behind
all that feed it, and no order that does so has lesser names.
-/

namespace PhasedUpgrade

def Actor.Feeds (producer consumer : Actor) : Prop :=
  ∃ typeName, typeName ∈ producer.produces ∧ typeName ∈ consumer.consumes

namespace Dispatch

variable {actor next first second : Actor} {actors ordered : List Actor}

theorem feedsOther_iff :
    feedsOther first second = true ↔ first.name ≠ second.name ∧ first.Feeds second := by
  simp [feedsOther, Contract.feeds, NameSet.meets_iff, Actor.Feeds]

theorem feedsOther_self (actor : Actor) : feedsOther actor actor = false := by
  simp [feedsOther]

/-! ## The least name -/

theorem mem_of_leastNamed? (h : leastNamed? actors = some actor) : actor ∈ actors := by
  induction actors generalizing actor with
  | nil => cases h
  | cons first rest ih =>
      unfold leastNamed? at h
      cases least : leastNamed? rest with
      | none =>
          rw [least] at h
          obtain rfl := Option.some.inj h
          exact List.mem_cons_self
      | some other =>
          rw [least] at h
          simp only at h
          split at h
          · obtain rfl := Option.some.inj h
            exact List.mem_cons_of_mem first (ih least)
          · obtain rfl := Option.some.inj h
            exact List.mem_cons_self

theorem leastNamed?_eq_none_iff : leastNamed? actors = none ↔ actors = [] := by
  cases actors with
  | nil => simp [leastNamed?]
  | cons first rest =>
      simp only [leastNamed?, reduceCtorEq, iff_false]
      cases leastNamed? rest with
      | none => simp
      | some other =>
          simp only
          split <;> simp

theorem le_of_leastNamed? (h : leastNamed? actors = some next) (mem : actor ∈ actors) :
    next.name ≤ actor.name := by
  induction actors generalizing next with
  | nil => cases mem
  | cons first rest ih =>
      unfold leastNamed? at h
      cases least : leastNamed? rest with
      | none =>
          rw [least] at h
          obtain rfl := Option.some.inj h
          obtain rfl := leastNamed?_eq_none_iff.mp least
          obtain rfl := List.mem_singleton.mp mem
          exact String.le_refl _
      | some other =>
          rw [least] at h
          simp only at h
          split at h
          next below =>
            obtain rfl := Option.some.inj h
            rcases List.mem_cons.mp mem with rfl | later
            · exact Std.le_of_lt below
            · exact ih least later
          next notBelow =>
            obtain rfl := Option.some.inj h
            rcases List.mem_cons.mp mem with rfl | later
            · exact String.le_refl _
            · exact String.le_trans notBelow (ih least later)

/-! ## Sorts under way -/

theorem eq_of_name_eq (distinct : (actors.map (·.name)).Nodup) (mem : first ∈ actors)
    (mem' : second ∈ actors) (same : first.name = second.name) : first = second :=
  List.inj_on_of_nodup_map distinct mem mem' same

namespace Sorting

variable {sorting : Sorting}

def awaits (sorting : Sorting) (actor : Actor) : Bool :=
  sorting.sorted.all (·.name != actor.name)

def awaited (sorting : Sorting) (actors : List Actor) (actor : Actor) : Nat :=
  actors.countP fun other => sorting.awaits other && feedsOther other actor

theorem awaits_iff :
    sorting.awaits actor = true ↔ actor.name ∉ sorting.sorted.map (·.name) := by
  simp only [awaits, List.all_eq_true, bne_iff_ne, List.mem_map, not_exists, not_and]

theorem awaits_put (sorting : Sorting) (next other : Actor) :
    (sorting.put next).awaits other = (sorting.awaits other && other.name != next.name) := by
  simp [awaits, put, bne_comm]

theorem awaited_eq_zero_iff :
    sorting.awaited actors actor = 0 ↔
      ∀ other ∈ actors, sorting.awaits other = true → feedsOther other actor = false := by
  simp [awaited, List.countP_eq_zero]

/-- What is true of a sort wherever it stands. -/
structure Sound (actors : List Actor) (sorting : Sorting) : Prop where
  counters_eq : sorting.counters =
    actors.map fun actor => (actor, (sorting.awaited actors actor : Int))
  ready_iff : ∀ actor, actor ∈ sorting.ready ↔
    actor ∈ actors ∧ sorting.awaits actor = true ∧ sorting.awaited actors actor = 0
  known : ∀ actor ∈ sorting.sorted, actor ∈ actors
  nodup : (sorting.sorted.map (·.name)).Nodup
  /-- Whoever feeds an actor that is in order is in order too. -/
  closed : ∀ actor ∈ sorting.sorted, sorting.awaited actors actor = 0
  forward : sorting.sorted.Pairwise fun earlier later => feedsOther later earlier = false

theorem awaited_start (actors : List Actor) (actor : Actor) :
    (start actors).awaited actors actor = actors.countP (feedsOther · actor) := by
  simp [awaited, awaits, start]

theorem sound_start (actors : List Actor) : (start actors).Sound actors where
  counters_eq := by
    simp only [awaited_start]
    rfl
  ready_iff actor := by
    rw [awaited_start]
    simp [awaits, start]
  known _ none := nomatch none
  nodup := .nil
  closed _ none := nomatch none
  forward := .nil

theorem countP_eq_of_mem (distinct : (actors.map (·.name)).Nodup) (mem : next ∈ actors)
    (p : Actor → Bool) :
    actors.countP p =
      actors.countP (fun other => p other && other.name != next.name) +
        if p next then 1 else 0 := by
  induction actors with
  | nil => cases mem
  | cons first rest ih =>
      obtain ⟨apart, distinct⟩ := List.nodup_cons.mp distinct
      rw [List.countP_cons, List.countP_cons]
      rcases List.mem_cons.mp mem with rfl | later
      · have others : rest.countP (fun other => p other && other.name != next.name) =
            rest.countP p := by
          refine List.countP_congr fun other among => ?_
          have differ : other.name ≠ next.name :=
            fun same => apart (List.mem_map.mpr ⟨other, among, same⟩)
          simp [differ]
        rw [others]
        simp
      · have differ : first.name ≠ next.name :=
          fun same => apart (List.mem_map.mpr ⟨next, later, same.symm⟩)
        rw [ih distinct later]
        simp [differ]
        omega

theorem awaited_put (distinct : (actors.map (·.name)).Nodup) (mem : next ∈ actors)
    (waits : sorting.awaits next = true) (actor : Actor) :
    sorting.awaited actors actor =
      (sorting.put next).awaited actors actor + if feedsOther next actor then 1 else 0 := by
  have split := countP_eq_of_mem distinct mem
    fun other => sorting.awaits other && feedsOther other actor
  simp only [waits, Bool.true_and] at split
  rw [awaited, split, awaited]
  congr 2
  funext other
  rw [awaits_put]
  ac_rfl

namespace Sound

theorem mem_sorted (h : sorting.Sound actors) (distinct : (actors.map (·.name)).Nodup)
    (mem : actor ∈ actors) (done : sorting.awaits actor = false) : actor ∈ sorting.sorted := by
  have named : actor.name ∈ sorting.sorted.map (·.name) := by
    by_contra missing
    rw [awaits_iff.mpr missing] at done
    cases done
  obtain ⟨same, among, named⟩ := List.mem_map.mp named
  exact eq_of_name_eq distinct (h.known same among) mem named ▸ among

theorem counters_put (h : sorting.Sound actors) (distinct : (actors.map (·.name)).Nodup)
    (mem : next ∈ actors) (waits : sorting.awaits next = true) :
    (sorting.put next).counters =
      actors.map fun actor => (actor, ((sorting.put next).awaited actors actor : Int)) := by
  show sorting.counters.map (countDown next) = _
  rw [h.counters_eq, List.map_map]
  refine List.map_congr_left fun actor _ => ?_
  have count := awaited_put distinct mem waits actor
  show countDown next (actor, (sorting.awaited actors actor : Int)) = _
  unfold countDown
  split <;> simp_all

/-- An actor may be next if it might be before, or if it waited for the one that is in order now. -/
theorem mem_ready_put (counters : (sorting.put next).counters =
      actors.map fun actor => (actor, ((sorting.put next).awaited actors actor : Int))) :
    actor ∈ (sorting.put next).ready ↔ actor ∈ sorting.ready ∧ actor.name ≠ next.name ∨
      actor ∈ actors ∧ feedsOther next actor = true ∧
        (sorting.put next).awaited actors actor = 0 := by
  have ready : (sorting.put next).ready = sorting.ready.filter (·.name != next.name) ++
      ((sorting.put next).counters.filter fun counter =>
        feedsOther next counter.1 && counter.2 == 0).map Prod.fst := rfl
  rw [ready, counters]
  simp [List.filter_map, Function.comp_def]

theorem put (h : sorting.Sound actors) (distinct : (actors.map (·.name)).Nodup)
    (mem : next ∈ sorting.ready) : (sorting.put next).Sound actors := by
  obtain ⟨known, waits, free⟩ := (h.ready_iff next).mp mem
  have counted := awaited_put distinct known waits
  have counters := h.counters_put distinct known waits
  -- What is in order already has not been waiting for an actor that is put in order now.
  have unfed : ∀ actor ∈ sorting.sorted, feedsOther next actor = false := fun actor among =>
    awaited_eq_zero_iff.mp (h.closed actor among) next known waits
  have closed : ∀ actor, sorting.awaited actors actor = 0 →
      (sorting.put next).awaited actors actor = 0 := fun actor zero => by
    have count := counted actor
    omega
  have sorted : (sorting.put next).sorted = sorting.sorted ++ [next] := rfl
  exact {
    counters_eq := counters
    ready_iff := fun actor => by
      rw [mem_ready_put counters, h.ready_iff, awaits_put]
      have count := counted actor
      constructor
      · rintro (⟨⟨among, pending, zero⟩, differ⟩ | ⟨among, feeds, zero⟩)
        · exact ⟨among, by simp [pending, differ], closed actor zero⟩
        · refine ⟨among, ?_, zero⟩
          have differ := (feedsOther_iff.mp feeds).1
          have pending : sorting.awaits actor = true := by
            by_contra done
            have there := h.mem_sorted distinct among (by simpa using done)
            rw [unfed actor there] at feeds
            cases feeds
          simp [pending, Ne.symm differ]
      · rintro ⟨among, pending, zero⟩
        simp only [Bool.and_eq_true, bne_iff_ne] at pending
        cases feeds : feedsOther next actor with
        | true => exact .inr ⟨among, rfl, zero⟩
        | false => exact .inl ⟨⟨among, pending.1, by simpa [feeds, zero] using count⟩, pending.2⟩
    known := by
      rw [sorted]
      exact List.forall_mem_append.mpr ⟨h.known, List.forall_mem_singleton.mpr known⟩
    nodup := by
      rw [sorted, List.map_append, List.map_singleton, ← List.concat_eq_append]
      exact h.nodup.concat (awaits_iff.mp waits)
    closed := by
      rw [sorted]
      exact List.forall_mem_append.mpr ⟨fun actor among => closed actor (h.closed actor among),
        List.forall_mem_singleton.mpr (closed next free)⟩
    forward := by
      rw [sorted, List.pairwise_append]
      refine ⟨h.forward, List.pairwise_singleton _ _, fun earlier among later new => ?_⟩
      rw [List.mem_singleton.mp new]
      exact unfed earlier among }

theorem putAll (h : sorting.Sound actors) (distinct : (actors.map (·.name)).Nodup) (count : Nat) :
    (putAll count sorting).Sound actors := by
  induction count generalizing sorting with
  | zero => exact h
  | succ count ih =>
      unfold Sorting.putAll
      split
      · exact h
      next next least => exact ih (h.put distinct (mem_of_leastNamed? least))

theorem length_le (h : sorting.Sound actors) : sorting.sorted.length ≤ actors.length :=
  (List.subperm_of_subset (.of_map _ h.nodup) h.known).length_le

theorem perm (h : sorting.Sound actors) (all : sorting.sorted.length = actors.length) :
    sorting.sorted.Perm actors :=
  (List.subperm_of_subset (.of_map _ h.nodup) h.known).perm_of_length_le (Nat.le_of_eq all.symm)

end Sound

/-! ## Ends of sorts -/

/-- A sort goes on up to the given number of actors as long as one may be next. -/
theorem putAll_cases (count : Nat) (sorting : Sorting) :
    (putAll count sorting).ready = [] ∨
      (putAll count sorting).sorted.length = sorting.sorted.length + count := by
  induction count generalizing sorting with
  | zero => exact .inr rfl
  | succ count ih =>
      unfold putAll
      split
      next none => exact .inl (leastNamed?_eq_none_iff.mp none)
      next next _ =>
        refine (ih (sorting.put next)).imp id fun length => ?_
        rw [length, put, List.length_append, List.length_singleton]
        omega

theorem prefix_putAll (count : Nat) (sorting : Sorting) :
    sorting.sorted <+: (putAll count sorting).sorted := by
  induction count generalizing sorting with
  | zero => exact List.prefix_rfl
  | succ count ih =>
      unfold putAll
      split
      · exact List.prefix_rfl
      next next _ => exact (List.prefix_append _ [next]).trans (ih (sorting.put next))

end Sorting

theorem sound_sort (distinct : (actors.map (·.name)).Nodup) : (sort actors).Sound actors :=
  (Sorting.sound_start actors).putAll distinct actors.length

theorem ready_sort (distinct : (actors.map (·.name)).Nodup) : (sort actors).ready = [] := by
  have sound := sound_sort distinct
  rcases Sorting.putAll_cases actors.length (.start actors) with none | length
  · exact none
  · -- All actors are in order then, so there is none that waits.
    have all := sound.perm (length.trans (Nat.zero_add _))
    refine List.eq_nil_iff_forall_not_mem.mpr fun actor mem => ?_
    obtain ⟨known, waits, _⟩ := (sound.ready_iff actor).mp mem
    exact Sorting.awaits_iff.mp waits (List.mem_map_of_mem (all.mem_iff.mpr known))

end Dispatch

end PhasedUpgrade
