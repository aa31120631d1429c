import PhasedUpgrade.Proofs.Dispatch.Selection
import PhasedUpgrade.Proofs.Dispatch.Urgency

/-!
# Experimental actors in plans

An experimental actor that is let through comes into the plan of the others. It keeps none of them
out, but those that it leads to have to come behind it, so they may fall behind others; no other
actor does.
-/

namespace PhasedUpgrade

def Filters.trusting (filters : Filters) (name : String) : Filters :=
  { filters with whitelist := filters.whitelist.insert name }

namespace Dispatch

variable {search : Search} {registry : Registry} {phase : Phase} {workflowTag : String}
  {filters : Filters} {actor newcomer : Actor} {actors first second ordered : List Actor}

theorem isUndelayed_of_plan (lawful : search.Lawful)
    (h : planWith search registry phase workflowTag filters = .ok ordered) :
    IsUndelayed (eligible registry phase workflowTag filters) ordered := by
  obtain ⟨acyclic, rfl⟩ := planWith_eq_ok_iff.mp h
  have distinct := distinct_eligible registry phase workflowTag filters
  refine isUndelayed_sort distinct fun actor leads => ?_
  rw [(lawful.isCyclic_iff distinct).mpr ⟨actor, leads⟩] at acyclic
  cases acyclic

theorem admits_trusting {contract : Contract} {name : String} (other : contract.name ≠ name) :
    (filters.trusting name).admits contract = filters.admits contract := by
  rw [Bool.eq_iff_iff, admits_iff, admits_iff]
  refine and_congr_left' (imp_congr_right fun _ => ?_)
  exact NameSet.mem_insertName.trans (or_iff_right other)

theorem eligible_trusting (known : newcomer ∈ registry.actors)
    (experimental : newcomer.experimental = true) (new : newcomer.name ∉ filters.whitelist) :
    (eligible registry phase workflowTag (filters.trusting newcomer.name)).filter
        (·.name != newcomer.name) = eligible registry phase workflowTag filters := by
  unfold eligible
  rw [List.filter_filter]
  refine List.filter_congr fun actor mem => ?_
  by_cases same : actor.name = newcomer.name
  · obtain rfl := eq_of_name_eq registry.distinct mem known same
    have kept : filters.admits actor.toContract = false := by
      rw [← Bool.not_eq_true, admits_iff]
      exact fun admitted => new (admitted.1 experimental)
    simp [kept]
  · rw [admits_trusting same, (bne_iff_ne.mpr same : (actor.name != newcomer.name) = true),
      Bool.true_and]

/-- Actors that a newcomer does not lead to are only fed by such. -/
theorem not_leads_of_feedsOther {other : Actor} (mem : actor ∈ actors) (mem' : other ∈ actors)
    (apart : ¬ Leads actors newcomer actor) (feeds : feedsOther other actor = true) :
    ¬ Leads actors newcomer other := fun leads =>
  apart (leads.tail ⟨mem', mem, (feedsOther_iff.mp feeds).2⟩)

/--
With one more experimental actor let through the others are the same. Who was before another one is
so still, unless the newcomer leads to it. If the newcomer feeds no other actor, their order is as
before; it is so just if those that now come before the newcomer have come first all along.
-/
theorem plan_trusting (lawful : search.Lawful) (known : newcomer ∈ registry.actors)
    (experimental : newcomer.experimental = true) (new : newcomer.name ∉ filters.whitelist)
    (without : planWith search registry phase workflowTag filters = .ok first)
    (along : planWith search registry phase workflowTag (filters.trusting newcomer.name) =
      .ok second) :
    let actors := eligible registry phase workflowTag (filters.trusting newcomer.name)
    let others := second.filter (·.name != newcomer.name)
    others.Perm first ∧
    (∀ actor other, ¬ Leads actors newcomer actor →
      [actor, other].Sublist first → [actor, other].Sublist others) ∧
    ((∀ other ∈ actors, newcomer.Feeds other → other = newcomer) → others = first) ∧
    (others = first ↔ second.takeWhile (·.name != newcomer.name) <+: first) := by
  intro actors others
  have distinct := distinct_eligible registry phase workflowTag (filters.trusting newcomer.name)
  have h := isUndelayed_of_plan lawful along
  have h' := isUndelayed_of_plan lawful without
  rw [← eligible_trusting known experimental new] at h'
  have alone {actor : Actor} (mem : actor ∈ actors) (same : actor.name = newcomer.name) :
      actor = newcomer :=
    eq_of_name_eq registry.distinct (mem_eligible_iff.mp mem).registered known same
  refine ⟨(h.perm.filter _).trans h'.perm.symm, fun actor other apart there => ?_,
    fun feedsNone => ?_, h.filter_eq_iff_prefix distinct h'⟩
  · classical
    refine h.sublist_filter_of_closed (p := fun actor => decide (¬ Leads actors newcomer actor))
      ?_ ?_ distinct h' (by simpa using apart) there
    · simp only [decide_eq_true_eq]
      exact fun actor mem apart other mem' => not_leads_of_feedsOther mem mem' apart
    · simp only [decide_eq_true_eq]
      exact fun actor mem apart same => apart (alone mem same ▸ .refl)
  · refine (h.filter ?_).unique (distinct.sublist (List.filter_sublist.map _)) h'
    simp only [bne_iff_ne]
    intro actor mem differs other mem' feeds same
    obtain rfl := alone mem' same
    exact differs (feedsNone actor mem (feedsOther_iff.mp feeds).2 ▸ rfl)

/-- One that reads what another one tells comes in between, and the others stay in order. -/
theorem plan_trusting_of_reader :
    let idle : View → Task Unit := fun _ => pure ()
    let newcomer : Actor := { Actor.tagged "b" ["facts"] ["notes"] idle with experimental := true }
    let registry : Registry := ⟨.builtin, [.tagged "d" ["facts"] [] idle,
      .tagged "c" [] ["facts"] idle, newcomer, .tagged "a" [] [] idle], by decide⟩
    let phase : Phase := .plain "apply" "upgrade"
    ∃ first second, plan registry phase "upgrade" .none = .ok first ∧
      plan registry phase "upgrade" (Filters.none.trusting "b") = .ok second ∧
      second.map (·.name) = ["a", "c", "b", "d"] ∧
      second.filter (·.name != "b") = first := by
  intro idle newcomer registry phase
  have without : plan registry phase "upgrade" .none = .ok _ :=
    planWith_eq_ok_iff.mpr ⟨by decide, rfl⟩
  have along : plan registry phase "upgrade" (Filters.none.trusting "b") = .ok _ :=
    planWith_eq_ok_iff.mpr ⟨by decide, rfl⟩
  have silent : registry.actors.any (fun other => newcomer.feeds other.toContract) = false := by
    decide
  refine ⟨_, _, without, along, by decide, ?_⟩
  have known : newcomer ∈ registry.actors := by simp [registry]
  obtain ⟨_, _, unchanged, _⟩ :=
    plan_trusting lawful_exhaustive known rfl (by decide) without along
  refine unchanged fun other mem feeds => ?_
  have silent := List.any_eq_false.mp silent other (mem_eligible_iff.mp mem).registered
  exact absurd (NameSet.meets_iff.mpr feeds) silent

/--
If it reads what the second of two tells, and tells what the first of them reads, it turns them
round: with it every order does so.
-/
theorem plan_trusting_turns :
    let idle : View → Task Unit := fun _ => pure ()
    let newcomer : Actor :=
      { Actor.tagged "link" ["facts"] ["targets"] idle with experimental := true }
    let alpha : Actor := .tagged "alpha" ["targets"] [] idle
    let omega : Actor := .tagged "omega" [] ["facts"] idle
    let registry : Registry := ⟨.builtin, [alpha, newcomer, omega], by decide⟩
    let phase : Phase := .plain "apply" "upgrade"
    ∃ first second, plan registry phase "upgrade" .none = .ok first ∧
      plan registry phase "upgrade" (Filters.none.trusting "link") = .ok second ∧
      first.map (·.name) = ["alpha", "omega"] ∧
      second.map (·.name) = ["omega", "link", "alpha"] ∧
      second.filter (·.name != "link") ≠ first ∧
      ∀ ordered, IsOrder [alpha, newcomer, omega] ordered → [omega, alpha].Sublist ordered := by
  intro idle newcomer alpha omega registry phase
  have without : plan registry phase "upgrade" .none = .ok _ :=
    planWith_eq_ok_iff.mpr ⟨by decide, rfl⟩
  have along : plan registry phase "upgrade" (Filters.none.trusting "link") = .ok _ :=
    planWith_eq_ok_iff.mpr ⟨by decide, rfl⟩
  refine ⟨_, _, without, along, by decide, by decide, fun same => ?_, fun ordered h => ?_⟩
  · exact absurd (congrArg (·.map (·.name)) same) (by decide)
  · have comes {actor : Actor} (mem : actor ∈ [alpha, newcomer, omega]) : actor ∈ ordered :=
      h.perm.mem_iff.mpr mem
    have nodup : ordered.Nodup := h.perm.nodup_iff.mpr (.of_map (·.name) (by decide))
    have differs {actor other : Actor} (named : actor.name ≠ other.name) : actor ≠ other :=
      fun same => named (same ▸ rfl)
    exact sublist_trans nodup
      (h.before omega (comes (by simp)) newcomer (comes (by simp)) (differs (by decide))
        ⟨"facts", by decide, by decide⟩)
      (h.before newcomer (comes (by simp)) alpha (comes (by simp)) (differs (by decide))
        ⟨"targets", by decide, by decide⟩)

end Dispatch

end PhasedUpgrade
