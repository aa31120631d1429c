import Mathlib.Data.Set.Finite.Basic
import Mathlib.Order.WellFounded
import PhasedUpgrade.Proofs.Dispatch.Ring

/-!
# Orders of actors

An order of actors puts each one behind all that feed it. Where no actor is on a cycle the sort
leaves none over, as whoever is left over waits for another one, and of finitely many not each can
wait for one more. It ends with the least order: where another one goes on differently for the first
time, it goes on with an actor that might be next there, so with one of a greater name.
-/

namespace PhasedUpgrade.Dispatch

open Relation (TransGen)

/-- All actors, each behind those that feed it. -/
structure IsOrder (actors ordered : List Actor) : Prop where
  perm : ordered.Perm actors
  before : ∀ producer ∈ ordered, ∀ consumer ∈ ordered, producer ≠ consumer →
    producer.Feeds consumer → [producer, consumer].Sublist ordered

variable {first second : Actor} {actors ordered rest : List Actor}

/-! ## One actor before another -/

theorem sublist_or_sublist (mem : first ∈ ordered) (mem' : second ∈ ordered)
    (differ : first ≠ second) :
    [first, second].Sublist ordered ∨ [second, first].Sublist ordered := by
  induction ordered with
  | nil => cases mem
  | cons head tail ih =>
      rcases List.mem_cons.mp mem with rfl | later <;>
        rcases List.mem_cons.mp mem' with rfl | later'
      · exact absurd rfl differ
      · exact .inl (.cons_cons _ (List.singleton_sublist.mpr later'))
      · exact .inr (.cons_cons _ (List.singleton_sublist.mpr later))
      · exact (ih later later').imp (.cons _) (.cons _)

theorem not_sublist_of_sublist (nodup : ordered.Nodup) (h : [first, second].Sublist ordered) :
    ¬ [second, first].Sublist ordered := by
  intro h'
  induction ordered with
  | nil => cases h
  | cons head tail ih =>
      obtain ⟨apart, nodup⟩ := List.nodup_cons.mp nodup
      rcases List.sublist_cons_iff.mp h with both | ⟨_, same, later⟩
      · rcases List.sublist_cons_iff.mp h' with both' | ⟨_, same', _⟩
        · exact ih nodup both both'
        · obtain ⟨rfl, _⟩ := List.cons.inj same'
          exact apart (both.subset (by simp))
      · obtain ⟨rfl, rfl⟩ := List.cons.inj same
        rcases List.sublist_cons_iff.mp h' with both' | ⟨_, same', _⟩
        · exact apart (both'.subset (by simp))
        · obtain ⟨rfl, _⟩ := List.cons.inj same'
          exact apart (List.singleton_sublist.mp later)

theorem sublist_of_mem_before {before after : List Actor} (mem : first ∈ before) :
    [first, second].Sublist (before ++ second :: after) :=
  (List.singleton_sublist.mpr mem).append (List.singleton_sublist.mpr List.mem_cons_self)

theorem sublist_of_mem_after {before after : List Actor} (mem : second ∈ after) :
    [first, second].Sublist (before ++ first :: after) :=
  ((List.singleton_sublist.mpr mem).cons_cons first).trans (List.sublist_append_right before _)

theorem sublist_iff_mem_before {before after : List Actor}
    (nodup : (before ++ second :: after).Nodup) :
    [first, second].Sublist (before ++ second :: after) ↔ first ∈ before := by
  refine ⟨fun there => ?_, sublist_of_mem_before⟩
  have differ : first ≠ second := by simpa using nodup.sublist there
  rcases List.mem_append.mp (there.subset List.mem_cons_self) with early | late
  · exact early
  · have late := List.mem_of_ne_of_mem differ late
    exact absurd (sublist_of_mem_after late) (not_sublist_of_sublist nodup there)

theorem sublist_iff_mem_after {before after : List Actor}
    (nodup : (before ++ first :: after).Nodup) :
    [first, second].Sublist (before ++ first :: after) ↔ second ∈ after := by
  refine ⟨fun there => ?_, sublist_of_mem_after⟩
  have differ : first ≠ second := by simpa using nodup.sublist there
  have mem : second ∈ before ++ first :: after := there.subset (by simp)
  rcases List.mem_append.mp mem with early | late
  · exact absurd (sublist_of_mem_before early) (not_sublist_of_sublist nodup there)
  · exact List.mem_of_ne_of_mem differ.symm late

theorem sublist_trans {last : Actor} (nodup : ordered.Nodup)
    (h : [first, second].Sublist ordered) (h' : [second, last].Sublist ordered) :
    [first, last].Sublist ordered := by
  obtain ⟨before, after, rfl⟩ := List.append_of_mem (h.subset (by simp) : second ∈ ordered)
  rw [sublist_iff_mem_before nodup] at h
  rw [sublist_iff_mem_after nodup] at h'
  exact (List.singleton_sublist.mpr h).append ((List.singleton_sublist.mpr h').cons second)

theorem isOrder_iff (distinct : (actors.map (·.name)).Nodup) :
    IsOrder actors ordered ↔ ordered.Perm actors ∧
      ordered.Pairwise fun earlier later => feedsOther later earlier = false := by
  constructor
  · rintro ⟨perm, before⟩
    refine ⟨perm, List.pairwise_iff_forall_sublist.mpr fun {earlier later} there => ?_⟩
    have nodup : ordered.Nodup := perm.nodup_iff.mpr (.of_map _ distinct)
    by_contra feeds
    obtain ⟨differ, feeds⟩ := feedsOther_iff.mp (by simpa using feeds)
    have mem : earlier ∈ ordered := there.subset (by simp)
    have mem' : later ∈ ordered := there.subset (by simp)
    exact not_sublist_of_sublist nodup there
      (before later mem' earlier mem (fun same => differ (same ▸ rfl)) feeds)
  · rintro ⟨perm, forward⟩
    refine ⟨perm, fun producer mem consumer mem' differ feeds => ?_⟩
    rcases sublist_or_sublist mem mem' differ with before | behind
    · exact before
    · have names : producer.name ≠ consumer.name := fun same =>
        differ (eq_of_name_eq distinct (perm.subset mem) (perm.subset mem') same)
      have none := List.pairwise_iff_forall_sublist.mp forward behind
      rw [feedsOther_iff.mpr ⟨names, feeds⟩] at none
      cases none

/-! ## The least order -/

namespace Sorting.Sound

variable {sorting : Sorting}

/-- What follows next in an order may be next in a sort that has come up to there. -/
theorem mem_ready (h : sorting.Sound actors) (distinct : (actors.map (·.name)).Nodup)
    (perm : (sorting.sorted ++ first :: rest).Perm actors)
    (forward : (sorting.sorted ++ first :: rest).Pairwise
      fun earlier later => feedsOther later earlier = false) :
    first ∈ sorting.ready := by
  have names := (perm.map (·.name)).nodup_iff.mpr distinct
  rw [List.map_append, List.map_cons, List.nodup_append] at names
  have later := (List.pairwise_cons.mp (List.pairwise_append.mp forward).2.1).1
  refine (h.ready_iff first).mpr ⟨perm.subset (by simp), ?_, ?_⟩
  · refine awaits_iff.mpr fun there => ?_
    exact names.2.2 _ there _ List.mem_cons_self rfl
  · refine awaited_eq_zero_iff.mpr fun other known waits => ?_
    have there := perm.mem_iff.mpr known
    rcases List.mem_append.mp there with done | coming
    · exact absurd (List.mem_map_of_mem done) (awaits_iff.mp waits)
    · rcases List.mem_cons.mp coming with rfl | coming
      · exact feedsOther_self other
      · exact later other coming

theorem names_le_append (first second : List Actor) :
    List.le (first.map (·.name)) ((first ++ second).map (·.name)) := by
  rw [List.map_append]
  exact List.le_append_left

/-- However far a sort goes on, it has no greater names in order than any order that it is on. -/
theorem putAll_le (h : sorting.Sound actors) (distinct : (actors.map (·.name)).Nodup)
    (perm : (sorting.sorted ++ rest).Perm actors)
    (forward : (sorting.sorted ++ rest).Pairwise
      fun earlier later => feedsOther later earlier = false) (count : Nat) :
    List.le ((Sorting.putAll count sorting).sorted.map (·.name))
      ((sorting.sorted ++ rest).map (·.name)) := by
  induction count generalizing sorting rest with
  | zero => exact names_le_append _ rest
  | succ count ih =>
      unfold Sorting.putAll
      split
      · exact names_le_append _ rest
      next next least =>
        have ready := mem_of_leastNamed? least
        have sound := h.put distinct ready
        cases rest with
        | nil =>
            -- All actors are in order already, so none can be next.
            obtain ⟨known, waits, _⟩ := (h.ready_iff next).mp ready
            rw [List.append_nil] at perm
            exact absurd (List.mem_map_of_mem (perm.mem_iff.mpr known)) (awaits_iff.mp waits)
        | cons other rest =>
            have coming := h.mem_ready distinct perm forward
            by_cases same : next.name = other.name
            · obtain rfl := eq_of_name_eq distinct ((h.ready_iff next).mp ready).1
                ((h.ready_iff other).mp coming).1 same
              have sorted : (sorting.put next).sorted ++ rest = sorting.sorted ++ next :: rest := by
                simp [Sorting.put]
              rw [← sorted] at perm forward ⊢
              exact ih sound perm forward
            · have below := Std.lt_of_le_of_ne (le_of_leastNamed? least coming) same
              obtain ⟨tail, whole⟩ := prefix_putAll count (sorting.put next)
              have sorted : (sorting.put next).sorted = sorting.sorted ++ [next] := rfl
              rw [← whole, sorted]
              simp only [List.map_append, List.map_cons, List.append_assoc, List.cons_append,
                List.nil_append]
              exact List.append_left_le (List.cons_le_cons_iff.mpr (.inl below))

end Sorting.Sound

/-! ## Sorts without cycles -/

/-- Where no actor is on a cycle, one of those with a property is not fed by another one of them. -/
theorem exists_source (acyclic : ∀ actor, ¬ TransGen (Link actors) actor actor)
    {p : Actor → Prop} (known : first ∈ actors) (has : p first) :
    ∃ source ∈ actors, p source ∧ ∀ other ∈ actors, p other → feedsOther other source = false := by
  have : Finite { actor // actor ∈ actors } := actors.finite_toSet
  let leads (first last : { actor // actor ∈ actors }) := TransGen (Link actors) first.val last.val
  have : IsTrans _ leads := ⟨fun _ _ _ => .trans⟩
  have : Std.Irrefl leads := ⟨fun actor => acyclic actor.val⟩
  have wellFounded := Finite.wellFounded_of_trans_of_irrefl leads
  obtain ⟨source, owns, least⟩ := wellFounded.has_min { actor | p actor.val } ⟨⟨first, known⟩, has⟩
  refine ⟨source.val, source.property, owns, fun other known has => ?_⟩
  by_contra feeds
  exact least ⟨other, known⟩ has (.single ⟨known, source.property, by simpa using feeds⟩)

theorem mem_sort (distinct : (actors.map (·.name)).Nodup)
    (acyclic : ∀ actor, ¬ TransGen (Link actors) actor actor) (known : first ∈ actors) :
    first ∈ (sort actors).sorted := by
  have sound := sound_sort distinct
  refine sound.mem_sorted distinct known ?_
  by_contra waits
  obtain ⟨source, known, waits, unfed⟩ :=
    exists_source acyclic (p := fun actor => (sort actors).awaits actor = true) known
      (by simpa using waits)
  have ready := (sound.ready_iff source).mpr ⟨known, waits, Sorting.awaited_eq_zero_iff.mpr unfed⟩
  rw [ready_sort distinct] at ready
  cases ready

theorem isOrder_sort (distinct : (actors.map (·.name)).Nodup)
    (acyclic : ∀ actor, ¬ TransGen (Link actors) actor actor) :
    IsOrder actors (sort actors).sorted := by
  have sound := sound_sort distinct
  have all : actors ⊆ (sort actors).sorted := fun actor => mem_sort distinct acyclic
  have le := (List.subperm_of_subset (.of_map _ distinct) all).length_le
  exact (isOrder_iff distinct).mpr ⟨sound.perm (Nat.le_antisymm sound.length_le le), sound.forward⟩

theorem sort_le (distinct : (actors.map (·.name)).Nodup) (isOrder : IsOrder actors ordered) :
    List.le ((sort actors).sorted.map (·.name)) (ordered.map (·.name)) := by
  obtain ⟨perm, forward⟩ := (isOrder_iff distinct).mp isOrder
  exact (Sorting.sound_start actors).putAll_le distinct perm forward actors.length

end PhasedUpgrade.Dispatch
