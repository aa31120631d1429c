import Mathlib.Data.List.TakeWhile
import PhasedUpgrade.Proofs.Dispatch.Order

/-!
# Orders without delay

At each place of a sort stands the actor of the least name among those that might come there. There
is only one such order of some actors. Any part of them that holds whoever feeds one of its members
has its own, and the others only come in between: they never change the order within the part.
-/

namespace PhasedUpgrade.Dispatch

open Relation (TransGen)

def Freed (actors done : List Actor) (actor : Actor) : Prop :=
  ∀ other ∈ actors, feedsOther other actor = true → other ∈ done

/-- An order in which no actor is delayed by one of a greater name that comes in its place. -/
structure IsUndelayed (actors ordered : List Actor) : Prop where
  perm : ordered.Perm actors
  forward : ordered.Pairwise fun earlier later => feedsOther later earlier = false
  least : ∀ before next after, ordered = before ++ next :: after →
    ∀ actor ∈ after, Freed actors before actor → next.name ≤ actor.name

variable {actors ordered first second before after : List Actor} {next actor newcomer : Actor}

/-! ## Sorts -/

namespace Sorting

variable {sorting : Sorting}

/-- Whether no actor has been put in order where one of a lesser name might have come. -/
def Undelayed (actors : List Actor) (sorting : Sorting) : Prop :=
  ∀ before next after, sorting.sorted = before ++ next :: after →
    ∀ actor ∈ actors, actor ∉ before → Freed actors before actor → next.name ≤ actor.name

theorem Sound.mem_ready_of_freed (h : sorting.Sound actors)
    (distinct : (actors.map (·.name)).Nodup) (known : actor ∈ actors)
    (waits : actor ∉ sorting.sorted) (freed : Freed actors sorting.sorted actor) :
    actor ∈ sorting.ready := by
  refine (h.ready_iff actor).mpr ⟨known, ?_, ?_⟩
  · by_contra done
    exact waits (h.mem_sorted distinct known (by simpa using done))
  · refine awaited_eq_zero_iff.mpr fun other among pending => ?_
    by_contra feeds
    have done := freed other among (by simpa using feeds)
    exact awaits_iff.mp pending (List.mem_map_of_mem done)

theorem Undelayed.put (h : sorting.Undelayed actors) (sound : sorting.Sound actors)
    (distinct : (actors.map (·.name)).Nodup) (least : leastNamed? sorting.ready = some next) :
    (sorting.put next).Undelayed actors := by
  intro before here after split actor known waits freed
  have split : sorting.sorted ++ [next] = before ++ here :: after := split
  rcases List.eq_nil_or_concat after with rfl | ⟨rest, last, rfl⟩
  · obtain ⟨rfl, same⟩ := List.append_inj' split rfl
    obtain rfl : next = here := List.singleton_inj.mp same
    exact le_of_leastNamed? least (sound.mem_ready_of_freed distinct known waits freed)
  · -- The place is one of the sort as it was before.
    rw [List.concat_eq_append, ← List.cons_append, ← List.append_assoc] at split
    exact h before here rest (List.append_inj' split rfl).1 actor known waits freed

theorem Undelayed.putAll (h : sorting.Undelayed actors) (sound : sorting.Sound actors)
    (distinct : (actors.map (·.name)).Nodup) (count : Nat) :
    (putAll count sorting).Undelayed actors := by
  induction count generalizing sorting with
  | zero => exact h
  | succ count ih =>
      unfold Sorting.putAll
      split
      · exact h
      next next least =>
        exact ih (h.put sound distinct least) (sound.put distinct (mem_of_leastNamed? least))

end Sorting

theorem isUndelayed_sort (distinct : (actors.map (·.name)).Nodup)
    (acyclic : ∀ actor, ¬ TransGen (Link actors) actor actor) :
    IsUndelayed actors (sort actors).sorted := by
  obtain ⟨perm, forward⟩ := (isOrder_iff distinct).mp (isOrder_sort distinct acyclic)
  have none : (Sorting.start actors).Undelayed actors := fun before next after split =>
    nomatch (List.append_eq_nil_iff.mp split.symm).2
  have least := none.putAll (Sorting.sound_start actors) distinct actors.length
  refine ⟨perm, forward, fun before next after split actor later freed => ?_⟩
  have nodup : (sort actors).sorted.Nodup := perm.nodup_iff.mpr (.of_map _ distinct)
  rw [split, List.nodup_append] at nodup
  refine least before next after split actor (perm.subset ?_) ?_ freed
  · rw [split]
    exact List.mem_append_right _ (List.mem_cons_of_mem _ later)
  · exact fun earlier => nodup.2.2 actor earlier actor (List.mem_cons_of_mem _ later) rfl

/-! ## The only one -/

namespace IsUndelayed

theorem freed (h : IsUndelayed actors (before ++ next :: after)) : Freed actors before next := by
  intro other known feeds
  rcases List.mem_append.mp (h.perm.mem_iff.mpr known) with earlier | later
  · exact earlier
  · have unfed := List.pairwise_cons.mp (List.pairwise_append.mp h.forward).2.1
    rcases List.mem_cons.mp later with rfl | later
    · rw [feedsOther_self] at feeds
      cases feeds
    · rw [unfed.1 other later] at feeds
      cases feeds

/-- Behind a common start two orders without delay go on with the same actor. -/
theorem next_name_le (distinct : (actors.map (·.name)).Nodup) {rest : List Actor} {other : Actor}
    (h : IsUndelayed actors (before ++ next :: after))
    (h' : IsUndelayed actors (before ++ other :: rest)) : other.name ≤ next.name := by
  have nodup := (h.perm.nodup_iff.mpr (.of_map _ distinct))
  rw [List.nodup_append] at nodup
  have there : next ∈ before ++ other :: rest :=
    (h.perm.trans h'.perm.symm).subset (by simp)
  rcases List.mem_append.mp there with earlier | later
  · exact absurd rfl (nodup.2.2 next earlier next List.mem_cons_self)
  · rcases List.mem_cons.mp later with rfl | later
    · exact String.le_refl _
    · exact h'.least before other rest rfl next later h.freed

theorem unique (distinct : (actors.map (·.name)).Nodup) (h : IsUndelayed actors first)
    (h' : IsUndelayed actors second) : first = second := by
  have length := (h.perm.trans h'.perm.symm).length_eq
  suffices same : ∀ rest before rest', first = before ++ rest → second = before ++ rest' →
      rest = rest' from same first [] second rfl rfl
  intro rest
  induction rest with
  | nil =>
      rintro before rest' rfl rfl
      simpa using length
  | cons next rest ih =>
      rintro before rest' rfl rfl
      cases rest' with
      | nil => simp at length
      | cons other rest' =>
          have same : next.name = other.name :=
            String.le_antisymm (next_name_le distinct h' h) (next_name_le distinct h h')
          obtain rfl := eq_of_name_eq distinct (h.perm.subset (by simp)) (h'.perm.subset (by simp))
            same
          rw [ih (before ++ [next]) rest' (by simp) (by simp)]

/-! ## Parts -/

section

variable {p : Actor → Bool}

/-- A part that holds whoever feeds one of its members is in its own order without delay. -/
theorem filter (h : IsUndelayed actors ordered)
    (closed : ∀ actor ∈ actors, p actor = true → ∀ other ∈ actors,
      feedsOther other actor = true → p other = true) :
    IsUndelayed (actors.filter p) (ordered.filter p) where
  perm := h.perm.filter p
  forward := h.forward.filter p
  least before next after split actor later freed := by
    obtain ⟨start, rest, rfl, begins, goesOn⟩ := List.filter_eq_append_iff.mp split
    obtain ⟨between, behind, rfl, _, _, ends⟩ := List.filter_eq_cons_iff.mp goesOn
    rw [← ends] at later
    obtain ⟨later, has⟩ := List.mem_filter.mp later
    refine h.least (start ++ between) next behind (by simp) actor later ?_
    intro other known feeds
    have mem : actor ∈ actors := h.perm.subset (by simp [later])
    have done := freed other (List.mem_filter.mpr ⟨known, closed actor mem has other known feeds⟩)
      feeds
    rw [← begins] at done
    exact List.mem_append_left between (List.mem_filter.mp done).1

/-- The first of a part to come behind some place might come there already. -/
theorem freed_of_closed {between : List Actor}
    (h : IsUndelayed actors (before ++ between ++ next :: after))
    (closed : ∀ actor ∈ actors, p actor = true → ∀ other ∈ actors,
      feedsOther other actor = true → p other = true)
    (has : p next = true) (foreign : ∀ actor ∈ between, p actor = false) :
    Freed actors before next := by
  intro other known feeds
  rcases List.mem_append.mp (h.freed other known feeds) with early | late
  · exact early
  · have has := closed next (h.perm.subset (by simp)) has other known feeds
    rw [foreign other late] at has
    cases has

end

/-! ## Newcomers -/

section

variable {p : Actor → Bool}
  (closed : ∀ actor ∈ actors, p actor = true → ∀ other ∈ actors,
    feedsOther other actor = true → p other = true)
  (apart : ∀ actor ∈ actors, p actor = true → actor.name ≠ newcomer.name)
  (distinct : (actors.map (·.name)).Nodup)
  (h : IsUndelayed actors second)
  (h' : IsUndelayed (actors.filter (·.name != newcomer.name)) first)

include closed apart distinct h h'

/-- A part without the newcomer has one order, with the newcomer and without it. -/
theorem sublist_iff_of_closed {part : List Actor} (within : ∀ actor ∈ part, p actor = true) :
    part.Sublist second ↔ part.Sublist first := by
  have known : (actors.filter (·.name != newcomer.name)).filter p = actors.filter p := by
    rw [List.filter_filter]
    refine List.filter_congr fun actor mem => ?_
    cases has : p actor with
    | false => rfl
    | true => simpa using apart actor mem has
  have own := h'.filter (p := p) fun actor mem has other mem' =>
    closed actor (List.mem_filter.mp mem).1 has other (List.mem_filter.mp mem').1
  rw [known] at own
  have same : second.filter p = first.filter p :=
    (h.filter closed).unique (distinct.sublist (List.filter_sublist.map _)) own
  have whole : part.filter p = part := List.filter_eq_self.mpr within
  constructor <;> intro there
  · exact ((whole ▸ same ▸ there.filter p : part.Sublist (first.filter p))).trans
      List.filter_sublist
  · exact ((whole ▸ same.symm ▸ there.filter p : part.Sublist (second.filter p))).trans
      List.filter_sublist

/--
If all before some place are before the first of the part to come behind it without the newcomer
too, the one at the place is so as well.
-/
theorem sublist_of_first {between behind : List Actor} {least : Actor}
    (split : second = before ++ next :: between ++ least :: behind)
    (known : next.name ≠ newcomer.name) (own : p next = false) (has : p least = true)
    (foreign : ∀ actor ∈ between, p actor = false)
    (early : ∀ other ∈ before, other.name ≠ newcomer.name → [other, least].Sublist first) :
    [next, least].Sublist first := by
  subst split
  have nodup : first.Nodup := h'.perm.nodup_iff.mpr ((List.Nodup.of_map _ distinct).filter _)
  have differ : next ≠ least := fun same => by
    rw [same, has] at own
    cases own
  have known' : next ∈ actors := h.perm.subset (by simp)
  have known'' : least ∈ actors := h.perm.subset (by simp)
  have old {other : Actor} (mem : other ∈ actors) (named : other.name ≠ newcomer.name) :
      other ∈ first := h'.perm.mem_iff.mpr (List.mem_filter.mpr ⟨mem, by simpa using named⟩)
  rcases sublist_or_sublist (old known' known) (old known'' (apart least known'' has)) differ with
    there | back
  · exact there
  · exfalso
    have below : next.name ≤ least.name := by
      refine h.least before next (between ++ least :: behind) (by simp) least (by simp) ?_
      have whole : ∀ other ∈ next :: between, p other = false :=
        List.forall_mem_cons.mpr ⟨own, foreign⟩
      exact freed_of_closed h closed has whole
    have freed : Freed actors before next := by
      rw [List.append_assoc] at h
      exact h.freed
    obtain ⟨front, rest, rfl⟩ := List.append_of_mem (back.subset List.mem_cons_self)
    have above : least.name ≤ next.name := by
      refine h'.least front least rest rfl next ((sublist_iff_mem_after nodup).mp back) ?_
      intro other mem feeds
      obtain ⟨mem, named⟩ := List.mem_filter.mp mem
      exact (sublist_iff_mem_before nodup).mp
        (early other (freed other mem feeds) (by simpa using named))
    exact differ (eq_of_name_eq distinct known' known'' (String.le_antisymm below above))

theorem sublist_of_place (split : second = before ++ next :: after)
    (known : next.name ≠ newcomer.name) (later : actor ∈ after) (has : p actor = true)
    (early : ∀ other ∈ before, other.name ≠ newcomer.name → ∀ actor ∈ after, p actor = true →
      [other, actor].Sublist first) :
    [next, actor].Sublist first := by
  have within {actor other : Actor} (has : p actor = true) (has' : p other = true) :
      [actor, other].Sublist second → [actor, other].Sublist first :=
    (sublist_iff_of_closed closed apart distinct h h' (by simp [has, has'])).mp
  cases own : p next with
  | true => exact within own has (split ▸ sublist_of_mem_after later)
  | false =>
      obtain ⟨least, found⟩ := Option.isSome_iff_exists.mp
        (List.find?_isSome.mpr ⟨actor, later, has⟩)
      obtain ⟨has', between, behind, rfl, foreign⟩ := List.find?_eq_some_iff_append.mp found
      have foreign : ∀ actor ∈ between, p actor = false := by simpa using foreign
      have place : second = before ++ next :: between ++ least :: behind := by simp [split]
      have comes : [next, least].Sublist first :=
        sublist_of_first closed apart distinct h h' place known own has' foreign
          fun other mem named => early other mem named least (by simp) has'
      have last : actor ∈ least :: behind := (List.mem_append.mp later).resolve_left fun mem => by
        rw [foreign actor mem] at has
        cases has
      rcases List.mem_cons.mp last with rfl | last
      · exact comes
      · have nodup := h'.perm.nodup_iff.mpr ((List.Nodup.of_map _ distinct).filter _)
        exact sublist_trans nodup comes (within has' has (place ▸ sublist_of_mem_after last))

/--
Whoever comes before a member of the part with the newcomer does so without it: the part does not
come any later.
-/
theorem sublist_of_closed (known : next.name ≠ newcomer.name) (has : p actor = true)
    (there : [next, actor].Sublist second) : [next, actor].Sublist first := by
  suffices early : ∀ before after, second = before ++ after → ∀ next ∈ before,
      next.name ≠ newcomer.name → ∀ actor, p actor = true → [next, actor].Sublist second →
        [next, actor].Sublist first from
    early second [] (by simp) next (there.subset List.mem_cons_self) known actor has there
  -- By induction on the places, as all that feed an actor come before it.
  intro before
  induction before using List.reverseRecOn with
  | nil => exact fun _ _ _ mem => nomatch mem
  | append_singleton before last ih =>
      intro after split next mem known actor has there
      rw [List.append_assoc, List.singleton_append] at split
      rcases List.mem_append.mp mem with mem | mem
      · exact ih (last :: after) split next mem known actor has there
      · obtain rfl := List.mem_singleton.mp mem
        have nodup : second.Nodup := h.perm.nodup_iff.mpr (.of_map _ distinct)
        have later := (sublist_iff_mem_after (split ▸ nodup)).mp (split ▸ there)
        refine sublist_of_place closed apart distinct h h' split known later has ?_
        intro other mem named actor later has
        refine ih (next :: after) split other mem named actor has (split ▸ ?_)
        exact (List.singleton_sublist.mpr mem).append ((List.singleton_sublist.mpr later).cons next)

/-- Whom a member of the part comes before without the newcomer, it comes before with it too. -/
theorem sublist_filter_of_closed (has : p actor = true) (there : [actor, next].Sublist first) :
    [actor, next].Sublist (second.filter (·.name != newcomer.name)) := by
  have known (other : Actor) (mem : other ∈ [actor, next]) :
      other ∈ second ∧ (other.name != newcomer.name) = true := by
    obtain ⟨mem, named⟩ := List.mem_filter.mp (h'.perm.subset (there.subset mem))
    exact ⟨h.perm.mem_iff.mpr mem, named⟩
  have mem := known actor (by simp)
  have mem' := known next (by simp)
  have nodup : first.Nodup := h'.perm.nodup_iff.mpr ((List.Nodup.of_map _ distinct).filter _)
  have differ : actor ≠ next := by simpa using nodup.sublist there
  rcases sublist_or_sublist mem.1 mem'.1 differ with before | back
  · have kept := before.filter (·.name != newcomer.name)
    rwa [List.filter_cons_of_pos (by exact mem.2),
      List.filter_cons_of_pos (by exact mem'.2)] at kept
  · have back := sublist_of_closed closed apart distinct h h' (by simpa using mem'.2) has back
    exact absurd back (not_sublist_of_sublist nodup there)

end

theorem filter_newcomer (distinct : ((before ++ newcomer :: after).map (·.name)).Nodup) :
    (before ++ newcomer :: after).filter (·.name != newcomer.name) = before ++ after := by
  rw [List.map_append, List.map_cons, List.nodup_append, List.nodup_cons] at distinct
  have kept (part : List Actor) (absent : newcomer.name ∉ part.map (·.name)) :
      part.filter (·.name != newcomer.name) = part :=
    List.filter_eq_self.mpr fun actor mem => by
      simpa using fun same => absent (List.mem_map.mpr ⟨actor, mem, same⟩)
  have early : newcomer.name ∉ before.map (·.name) := fun mem =>
    distinct.2.2 _ mem _ List.mem_cons_self rfl
  rw [List.filter_append, List.filter_cons_of_neg (by simp), kept before early,
    kept after distinct.2.1.1]

/--
Where a newcomer comes in behind a start that the order of the others has in common, these go on in
their order as before.
-/
theorem eq_of_prefix (distinct : (actors.map (·.name)).Nodup)
    (h : IsUndelayed actors (before ++ newcomer :: after))
    (h' : IsUndelayed (actors.filter (·.name != newcomer.name)) ordered)
    (start : before <+: ordered) : before ++ after = ordered := by
  have others := filter_newcomer ((h.perm.map (·.name)).nodup_iff.mpr distinct)
  have perm : (before ++ after).Perm (actors.filter (·.name != newcomer.name)) :=
    others ▸ h.perm.filter _
  obtain ⟨rest, rfl⟩ := start
  have same : rest.Perm after := (List.perm_append_left_iff before).mp (h'.perm.trans perm.symm)
  refine IsUndelayed.unique (distinct.sublist (List.filter_sublist.map _)) ⟨perm, ?_, ?_⟩ h'
  · exact h.forward.sublist ((List.sublist_cons_self newcomer after).append_left before)
  · intro early next late split actor later freed
    have behind (between : List Actor) (begins : early = before ++ between)
        (goesOn : after = between ++ next :: late) : next.name ≤ actor.name := by
      subst begins goesOn
      refine h.least (before ++ newcomer :: between) next late (by simp) actor later ?_
      intro other known feeds
      by_cases named : other.name = newcomer.name
      · have it := eq_of_name_eq distinct known (h.perm.subset (by simp)) named
        simp [it]
      · have done := freed other (List.mem_filter.mpr ⟨known, by simpa using named⟩) feeds
        simp only [List.mem_append, List.mem_cons] at done ⊢
        exact done.imp id .inr
    rcases List.append_eq_append_iff.mp split with ⟨between, begins, goesOn⟩ |
      ⟨between, begins, goesOn⟩
    · exact behind between begins goesOn
    · cases between with
      | nil => exact behind [] (by simpa using begins.symm) goesOn.symm
      | cons other between =>
          -- The place is in the common start, so the order of the others has it too.
          obtain ⟨rfl, rfl⟩ := List.cons.inj goesOn
          refine h'.least early next (between ++ rest) (by simp [begins]) actor ?_ freed
          have later : actor ∈ between ++ after := later
          exact List.mem_append.mpr ((List.mem_append.mp later).imp_right same.mem_iff.mpr)

theorem filter_eq_iff_prefix (distinct : (actors.map (·.name)).Nodup)
    (h : IsUndelayed actors second)
    (h' : IsUndelayed (actors.filter (·.name != newcomer.name)) first) :
    second.filter (·.name != newcomer.name) = first ↔
      second.takeWhile (·.name != newcomer.name) <+: first := by
  have shape := second.takeWhile_append_dropWhile (p := (·.name != newcomer.name))
  cases rest : second.dropWhile (·.name != newcomer.name) with
  | nil =>
      have all := List.dropWhile_eq_nil_iff.mp rest
      have length := ((h.perm.filter (·.name != newcomer.name)).trans h'.perm.symm).length_eq
      rw [rest, List.append_nil] at shape
      rw [List.filter_eq_self.mpr all] at length ⊢
      rw [shape]
      exact ⟨fun same => same ▸ List.prefix_rfl, fun start => start.eq_of_length length⟩
  | cons next after =>
      have named : next.name = newcomer.name := by
        simpa [rest] using second.head?_dropWhile_not (·.name != newcomer.name)
      rw [rest] at shape
      rw [← named] at h' shape ⊢
      generalize second.takeWhile (·.name != next.name) = before at shape ⊢
      subst shape
      rw [filter_newcomer ((h.perm.map (·.name)).nodup_iff.mpr distinct)]
      exact ⟨fun same => same ▸ List.prefix_append before after, eq_of_prefix distinct h h'⟩

end IsUndelayed

end PhasedUpgrade.Dispatch
