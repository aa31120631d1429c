import Mathlib.Data.List.Chain
import PhasedUpgrade.Proofs.Dispatch.Sorting

/-!
# Rings of actors

Distinct actors form a ring if each feeds the next and the last feeds the first. An actor is on a
ring just if it leads to itself by way of another one.
-/

namespace PhasedUpgrade.Dispatch

open Relation (ReflTransGen TransGen)

/-- At least two different actors, each of which feeds the next and the last the first. -/
structure Ring (actors ring : List Actor) : Prop where
  known : ring ⊆ actors
  several : 2 ≤ ring.length
  nodup : ring.Nodup
  linked : ring.IsChain Actor.Feeds
  closed : ∀ last ∈ ring.getLast?, ∀ first ∈ ring.head?, last.Feeds first

/-- Whether one actor is another, or comes to it by feeding one of the actors after the other. -/
def Leads (actors : List Actor) : Actor → Actor → Prop :=
  ReflTransGen fun producer consumer =>
    producer ∈ actors ∧ consumer ∈ actors ∧ producer.Feeds consumer

structure Link (actors : List Actor) (producer consumer : Actor) : Prop where
  source : producer ∈ actors
  target : consumer ∈ actors
  feeds : feedsOther producer consumer = true

variable {actor first last : Actor} {actors path ring : List Actor}

theorem Link.ne (h : Link actors first last) : first ≠ last := fun same =>
  (feedsOther_iff.mp h.feeds).1 (same ▸ rfl)

theorem link_of_feeds (distinct : (actors.map (·.name)).Nodup) (known : first ∈ actors)
    (known' : last ∈ actors) (differ : first ≠ last) (feeds : first.Feeds last) :
    Link actors first last where
  source := known
  target := known'
  feeds := feedsOther_iff.mpr ⟨fun same => differ (eq_of_name_eq distinct known known' same), feeds⟩

/-- What an actor feeds to itself leads nowhere. -/
theorem leads_iff (distinct : (actors.map (·.name)).Nodup) :
    Leads actors first last ↔ ReflTransGen (Link actors) first last := by
  constructor
  · intro leads
    induction leads with
    | refl => exact .refl
    | @tail middle next _ feeds ih =>
        obtain ⟨known, known', feeds⟩ := feeds
        by_cases same : middle = next
        · exact same ▸ ih
        · exact ih.tail (link_of_feeds distinct known known' same feeds)
  · intro leads
    exact ReflTransGen.mono
      (fun _ _ link => ⟨link.source, link.target, (feedsOther_iff.mp link.feeds).2⟩) _ _ leads

/-! ## Paths -/

/-- Who is led to an actor gets there without coming to any actor twice. -/
theorem exists_simple_path (known : last ∈ actors) (h : ReflTransGen (Link actors) first last) :
    ∃ path : List Actor, path ⊆ actors ∧ path.IsChain (Link actors) ∧ path.Nodup ∧
      path.head? = some first ∧ path.getLast? = some last := by
  induction h using ReflTransGen.head_induction_on with
  | refl =>
      exact ⟨[last], by simpa using known, .singleton last, List.nodup_singleton last, rfl, rfl⟩
  | @head start next link _ ih =>
      obtain ⟨path, within, linked, simple, begins, ends⟩ := ih
      by_cases again : start ∈ path
      · -- Where the path comes back to its start it may start as well.
        obtain ⟨before, behind, rfl⟩ := List.append_of_mem again
        have suffix' : start :: behind <:+ before ++ start :: behind := List.suffix_append _ _
        refine ⟨start :: behind, List.Subset.trans suffix'.subset within, linked.suffix suffix',
          simple.sublist suffix'.sublist, rfl, ?_⟩
        simpa using ends
      · refine ⟨start :: path, List.cons_subset.mpr ⟨link.source, within⟩, linked.cons ?_,
          List.nodup_cons.mpr ⟨again, simple⟩, rfl, ?_⟩
        · rw [begins]
          rintro _ ⟨⟩
          exact link
        · rw [List.getLast?_cons, ends]
          rfl

theorem links_of_feeds (distinct : (actors.map (·.name)).Nodup) (known : path ⊆ actors)
    (nodup : path.Nodup) (linked : path.IsChain Actor.Feeds) : path.IsChain (Link actors) := by
  induction linked with
  | nil => exact .nil
  | singleton actor => exact .singleton actor
  | @cons_cons first second rest feeds _ ih =>
      obtain ⟨apart, nodup⟩ := List.nodup_cons.mp nodup
      obtain ⟨here, known⟩ := List.cons_subset.mp known
      have differ : first ≠ second := fun same => apart (same ▸ List.mem_cons_self)
      exact .cons_cons (link_of_feeds distinct here (known List.mem_cons_self) differ feeds)
        (ih known nodup)

/-! ## Rings -/

theorem exists_ring (h : TransGen (Link actors) actor actor) :
    ∃ ring, Ring actors ring ∧ actor ∈ ring := by
  obtain ⟨next, link, leads⟩ := TransGen.head'_iff.mp h
  obtain ⟨ring, known, linked, nodup, begins, ends⟩ := exists_simple_path link.source leads
  refine ⟨ring, ⟨known, ?_, nodup, ?_, ?_⟩, List.mem_of_getLast? ends⟩
  · match ring, begins, ends with
    | [_], rfl, rfl => exact absurd rfl link.ne
    | _ :: _ :: _, _, _ => simp
  · exact linked.imp fun _ _ link => (feedsOther_iff.mp link.feeds).2
  · rw [begins, ends]
    rintro _ ⟨⟩ _ ⟨⟩
    exact (feedsOther_iff.mp link.feeds).2

theorem Ring.getLast_ne_head (h : Ring actors ring) (nonempty : ring ≠ []) :
    ring.getLast nonempty ≠ ring.head nonempty := by
  obtain ⟨_, several, nodup, _, _⟩ := h
  match ring, several, nodup with
  | first :: second :: rest, _, nodup =>
      rw [List.getLast_cons_cons, List.head_cons]
      exact fun same => (List.nodup_cons.mp nodup).1 (same ▸ List.getLast_mem _)

theorem Ring.transGen (h : Ring actors ring) (distinct : (actors.map (·.name)).Nodup)
    (mem : actor ∈ ring) : TransGen (Link actors) actor actor := by
  have nonempty : ring ≠ [] := List.ne_nil_of_mem mem
  have links := links_of_feeds distinct h.known h.nodup h.linked
  have from_first := links.induction (ReflTransGen (Link actors) (ring.head nonempty) ·) ring
    (fun _ _ link leads => leads.tail link) (fun _ => .refl)
  have to_last := links.backwards_induction
    (ReflTransGen (Link actors) · (ring.getLast nonempty)) ring
    (fun _ _ link leads => .head link leads) (fun _ => .refl)
  have closes : Link actors (ring.getLast nonempty) (ring.head nonempty) :=
    link_of_feeds distinct (h.known (List.getLast_mem _)) (h.known (List.head_mem _))
      (h.getLast_ne_head nonempty)
      (h.closed _ (List.getLast?_eq_some_getLast _) _ (List.head?_eq_some_head _))
  exact .trans_right (to_last actor mem) (.head' closes (from_first actor mem))

theorem exists_ring_iff (distinct : (actors.map (·.name)).Nodup) :
    (∃ ring, Ring actors ring ∧ actor ∈ ring) ↔ TransGen (Link actors) actor actor :=
  ⟨fun ⟨_, ring, mem⟩ => ring.transGen distinct mem, exists_ring⟩

end PhasedUpgrade.Dispatch
