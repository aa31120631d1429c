import Mathlib.Data.List.Forall2
import PhasedUpgrade.Proofs.Dispatch.Breach

/-!
# Judgements of phases

A phase is decided upon twice: after each turn, whether the next actor gets its own, and behind the
last one, what the phase comes to. The two agree: a phase has failed if and only if its last turn
has stopped it, and no turn before the last one would have.
-/

namespace PhasedUpgrade

/-! ## Results of actors -/

namespace ActorResult

variable {policy : ErrorPolicy} {result : ActorResult}

/-- Whether an actor has neither completed its turn nor been skipped. -/
def isFailure : ActorResult → Bool
  | completed | skipped _ => false
  | fatal _ _ | violation _ | failed _ => true

/-- What stops a phase is what fails it, for good or by its error policy. -/
theorem stops_iff : result.goesOn policy = false ↔
    result.fails policy = true ∨ result.isTerminal = true := by
  cases result <;> cases policy <;> simp [goesOn, fails, isTerminal]

theorem isTerminal_iff : result.isTerminal = true ↔
    (∃ reason details, result = .fatal reason details) ∨ ∃ cause, result = .violation cause := by
  cases result <;> simp [isTerminal]

theorem isSome_failure? (result : ActorResult) : result.failure?.isSome = result.isFailure := by
  cases result with
  | fatal reason details => cases details <;> rfl
  | completed | skipped _ | violation _ | failed _ => rfl

theorem goesOn_failPhase (result : ActorResult) :
    result.goesOn .failPhase = !result.isFailure := by
  cases result <;> rfl

theorem isTerminal_of_stops_reportOnly (stops : result.goesOn .reportOnly = false) :
    result.isTerminal = true := by
  cases result with
  | fatal _ _ | violation _ => rfl
  | completed | skipped _ | failed _ => cases stops

theorem failure?_of_isTerminal (terminal : result.isTerminal = true) :
    ∃ kind message, result.failure? = some (kind, message) ∧ kind ≠ .unexpected := by
  cases result with
  | fatal reason details => cases details <;> exact ⟨_, _, rfl, nofun⟩
  | violation cause => exact ⟨_, _, rfl, nofun⟩
  | completed | skipped _ | failed _ => cases terminal

end ActorResult

theorem Outcome.isSome_failure? (outcome : Outcome) :
    outcome.failure?.isSome = outcome.result.isFailure := by
  rw [Outcome.failure?, Option.isSome_map, ActorResult.isSome_failure?]

theorem Outcome.actor_of_failure? {outcome : Outcome} {error : ActorFailure}
    (told : outcome.failure? = some error) :
    error.actor = outcome.actor ∧ outcome.result.failure? = some (error.kind, error.message) := by
  obtain ⟨⟨kind, message⟩, found, rfl⟩ := Option.map_eq_some_iff.mp told
  exact ⟨rfl, found⟩

/-! ## Turns one after the other -/

section

variable {α : Type} {items : List α}

theorem eq_or_mem_of_mem_dropLast_cons {first item : α} (mem : item ∈ (first :: items).dropLast) :
    item = first ∨ item ∈ items.dropLast := by
  cases items with
  | nil => cases mem
  | cons next rest => exact List.mem_cons.mp mem

/-- Where everything but the last item goes on, what stops can only be the last one. -/
theorem exists_mem_iff_getLast? {p : α → Prop} (onward : ∀ item ∈ items.dropLast, ¬ p item) :
    (∃ item ∈ items, p item) ↔ ∃ last ∈ items.getLast?, p last := by
  rcases items.eq_nil_or_concat with rfl | ⟨rest, last, rfl⟩
  · simp
  · rw [List.concat_eq_append] at onward ⊢
    rw [List.dropLast_concat] at onward
    constructor
    · rintro ⟨item, mem, holds⟩
      rcases List.mem_append.mp mem with earlier | here
      · exact absurd holds (onward item earlier)
      · exact ⟨last, by simp, List.mem_singleton.mp here ▸ holds⟩
    · rintro ⟨found, mem, holds⟩
      exact ⟨found, List.mem_of_mem_getLast? mem, holds⟩

end

namespace Visit

variable (supply : Supply) (execution : Execution) (phase : String)

def runThrough (actors : List Actor) (bench : Workbench) : List Visit × Workbench :=
  makeAll supply execution phase (fun _ => true) actors bench

variable {supply execution phase}

theorem runThrough_cons (actor : Actor) (rest : List Actor) (bench : Workbench) :
    runThrough supply execution phase (actor :: rest) bench =
      let (visit, after) := make supply execution phase actor bench
      let (visits, last) := runThrough supply execution phase rest after
      (visit :: visits, last) :=
  rfl

theorem actors_runThrough (actors : List Actor) (bench : Workbench) :
    (runThrough supply execution phase actors bench).1.map Visit.actor =
      actors.map fun actor => actor.name := by
  induction actors generalizing bench with
  | nil => rfl
  | cons actor rest ih => exact congrArg (actor.name :: ·) (ih _)

variable (supply execution phase) in
/-- The visits of a phase are those of the actors up to the first one that stops it. -/
theorem makeAll_eq_runThrough (goesOn : ActorResult → Bool) (actors : List Actor)
    (bench : Workbench) :
    ∃ ran, ran <+: actors ∧
      makeAll supply execution phase goesOn actors bench =
        runThrough supply execution phase ran bench ∧
      (∀ visit ∈ (makeAll supply execution phase goesOn actors bench).1.dropLast,
        goesOn visit.result = true) ∧
      (ran = actors ∨ ∃ last ∈ (makeAll supply execution phase goesOn actors bench).1.getLast?,
        goesOn last.result = false) := by
  induction actors generalizing bench with
  | nil => exact ⟨[], List.nil_prefix, rfl, by simp [makeAll], .inl rfl⟩
  | cons actor rest ih =>
      simp only [makeAll]
      split
      next onward =>
        obtain ⟨ran, part, same, earlier, ends⟩ := ih (make supply execution phase actor bench).2
        refine ⟨actor :: ran, List.cons_prefix_cons.mpr ⟨rfl, part⟩, ?_, ?_, ?_⟩
        · simp only [runThrough_cons, same]
        · intro visit mem
          rcases eq_or_mem_of_mem_dropLast_cons mem with rfl | later
          · exact onward
          · exact earlier visit later
        · rcases ends with all | ⟨last, mem, stops⟩
          · exact .inl (congrArg _ all)
          · refine .inr ⟨last, ?_, stops⟩
            rw [List.getLast?_cons, Option.mem_def.mp mem]
            rfl
      next stops =>
        exact ⟨[actor], ⟨rest, rfl⟩, rfl, by simp, .inr ⟨_, rfl, Bool.eq_false_iff.mpr stops⟩⟩

end Visit

/-! ## The judgement behind the last turn -/

namespace PhaseResult

/--
A judgement by the error policy of its phase fits the turns that have been taken: of some actors,
the first ones, `ran`, and of those no more than the verdicts on their outcomes allow.
-/
structure Fits (result : PhaseResult) (policy : ErrorPolicy) (actors ran : List Actor) : Prop where
  /-- The actors have their outcomes in their order, from the first one on. -/
  first : ran <+: actors
  in_order : result.outcomes.map Outcome.actor = ran.map fun actor => actor.name
  /-- An actor without a turn is one behind a stop, and behind a stop there is no turn. -/
  whole : ran = actors ∨ ∃ last ∈ result.outcomes.getLast?, last.result.goesOn policy = false
  onward : ∀ outcome ∈ result.outcomes.dropLast, outcome.result.goesOn policy = true
  failed_iff : result.status = .failed ↔
    ∃ last ∈ result.outcomes.getLast?, last.result.goesOn policy = false
  terminal_iff : result.terminal = true ↔ ∃ last ∈ result.outcomes.getLast?,
    (∃ reason details, last.result = .fatal reason details) ∨
      ∃ cause, last.result = .violation cause
  /-- The errors are, one by one, the outcomes of actors that neither completed nor were skipped. -/
  errors_match : List.Forall₂ (fun error outcome => error.actor = outcome.actor ∧
      outcome.result.failure? = some (error.kind, error.message))
    result.errors (result.outcomes.filter fun outcome => outcome.result.isFailure)
  partitioned : (result.completedActors ++ result.skippedActors ++
    result.errors.map ActorFailure.actor).Perm (result.outcomes.map Outcome.actor)
  error_of_failPhase : policy = .failPhase → result.errors.length ≤ 1
  succeeded_of_reportOnly : policy = .reportOnly → (∀ error ∈ result.errors,
    error.kind = .unexpected) → result.status = .succeeded ∧ ran = actors

variable {phase : Phase} {outcomes : List Outcome}

theorem failed_iff_stops : (conclude phase outcomes).status = .failed ↔
    ∃ outcome ∈ outcomes, outcome.result.goesOn phase.errorPolicy = false := by
  have decided : (conclude phase outcomes).status = .failed ↔
      (outcomes.any fun outcome => outcome.result.fails phase.errorPolicy) = true ∨
        (outcomes.any fun outcome => outcome.result.isTerminal) = true := by
    rw [← Bool.or_eq_true_iff]
    show (if _ then PhaseStatus.failed else .succeeded) = .failed ↔ _
    split <;> simp_all
  simp only [decided, List.any_eq_true, ActorResult.stops_iff, and_or_left, exists_or]

theorem errors_match (phase : Phase) (outcomes : List Outcome) :
    List.Forall₂ (fun error outcome => error.actor = outcome.actor ∧
        outcome.result.failure? = some (error.kind, error.message))
      (conclude phase outcomes).errors
      (outcomes.filter fun outcome => outcome.result.isFailure) := by
  induction outcomes with
  | nil => exact .nil
  | cons outcome rest ih =>
      show List.Forall₂ _ (List.filterMap Outcome.failure? (outcome :: rest)) _
      have failure := outcome.isSome_failure?
      cases told : outcome.failure? with
      | none =>
          rw [told, Option.isSome_none] at failure
          rw [List.filterMap_cons_none told, List.filter_cons_of_neg (by simp [← failure])]
          exact ih
      | some error =>
          rw [told, Option.isSome_some] at failure
          rw [List.filterMap_cons_some told, List.filter_cons_of_pos (by simp [← failure])]
          exact .cons (Outcome.actor_of_failure? told) ih

theorem map_actor_errors (phase : Phase) (outcomes : List Outcome) :
    (conclude phase outcomes).errors.map ActorFailure.actor =
      (outcomes.filter fun outcome => outcome.result.isFailure).map Outcome.actor := by
  have names := (errors_match phase outcomes).imp fun _ _ same => same.1
  rwa [← List.forall₂_eq_eq_eq, List.forall₂_map_left_iff, List.forall₂_map_right_iff]

/-- Each actor with a turn is in one of the lists of a phase, and in no two of them. -/
theorem partitioned (phase : Phase) (outcomes : List Outcome) :
    ((conclude phase outcomes).completedActors ++ (conclude phase outcomes).skippedActors ++
      (conclude phase outcomes).errors.map ActorFailure.actor).Perm
        (outcomes.map Outcome.actor) := by
  rw [map_actor_errors]
  induction outcomes with
  | nil => exact .refl _
  | cons outcome rest ih =>
      obtain ⟨name, result⟩ := outcome
      rw [List.append_assoc] at ih ⊢
      cases result with
      | completed => exact ih.cons name
      | skipped reason => exact List.perm_middle.trans (ih.cons name)
      | fatal _ _ | violation _ | failed _ =>
          rw [← List.append_assoc] at ih ⊢
          exact List.perm_middle.trans (ih.cons name)

/-- Unexpected failures alone do not stop a phase that only reports them. -/
theorem not_stops_of_unexpected
    (unexpected : ∀ error ∈ (conclude phase outcomes).errors, error.kind = .unexpected)
    {outcome : Outcome} (mem : outcome ∈ outcomes) :
    ¬ outcome.result.goesOn .reportOnly = false := by
  intro stops
  obtain ⟨kind, message, told, other⟩ := ActorResult.failure?_of_isTerminal
    (ActorResult.isTerminal_of_stops_reportOnly stops)
  have among : outcome.failure? = some ⟨outcome.actor, kind, message⟩ := by
    rw [Outcome.failure?, told]
    rfl
  exact other (unexpected _ (List.mem_filterMap.mpr ⟨outcome, mem, among⟩))

/-- Where everything but the last outcome goes on, the judgement agrees with the verdicts. -/
theorem fits_of_onward {actors ran : List Actor} (first : ran <+: actors)
    (in_order : outcomes.map Outcome.actor = ran.map fun actor => actor.name)
    (onward : ∀ outcome ∈ outcomes.dropLast, outcome.result.goesOn phase.errorPolicy = true)
    (whole : ran = actors ∨
      ∃ last ∈ outcomes.getLast?, last.result.goesOn phase.errorPolicy = false) :
    (conclude phase outcomes).Fits phase.errorPolicy actors ran where
  first := first
  in_order := in_order
  whole := whole
  onward := onward
  failed_iff := by
    rw [failed_iff_stops]
    exact exists_mem_iff_getLast? fun outcome mem => by simp [onward outcome mem]
  terminal_iff := by
    simp only [← ActorResult.isTerminal_iff, terminal_iff]
    refine exists_mem_iff_getLast? fun outcome mem terminal => ?_
    have stops := ActorResult.not_goesOn_of_isTerminal terminal phase.errorPolicy
    rw [onward outcome mem] at stops
    cases stops
  errors_match := errors_match phase outcomes
  partitioned := partitioned phase outcomes
  error_of_failPhase := by
    intro policy
    rw [policy] at onward
    rw [(errors_match phase outcomes).length_eq]
    -- Under this policy only the outcome of the last turn can be a failure.
    rcases outcomes.eq_nil_or_concat with rfl | ⟨rest, last, rfl⟩
    · exact Nat.zero_le 1
    · rw [List.concat_eq_append] at onward ⊢
      rw [List.dropLast_concat] at onward
      have quiet : rest.filter (fun outcome => outcome.result.isFailure) = [] := by
        refine List.filter_eq_nil_iff.mpr fun outcome mem => ?_
        have goes := onward outcome mem
        rw [ActorResult.goesOn_failPhase, Bool.not_eq_true'] at goes
        exact Bool.eq_false_iff.mp goes
      rw [List.filter_append, quiet, List.nil_append]
      exact List.length_filter_le _ [last]
  succeeded_of_reportOnly := by
    intro policy unexpected
    rw [policy] at whole onward
    have stopless : ∀ outcome ∈ outcomes, ¬ outcome.result.goesOn .reportOnly = false :=
      fun outcome mem stops => not_stops_of_unexpected unexpected mem stops
    refine ⟨?_, whole.resolve_right fun ⟨last, mem, stops⟩ =>
      stopless last (List.mem_of_getLast? mem) stops⟩
    cases status : (conclude phase outcomes).status with
    | succeeded => rfl
    | failed =>
        obtain ⟨outcome, mem, stops⟩ := failed_iff_stops.mp status
        exact absurd (policy ▸ stops) (stopless outcome mem)

end PhaseResult

namespace Phase

variable (phase : Phase) (supply : Supply) (execution : Execution) (actors : List Actor)
  (bench : Workbench)

/--
Whatever its actors do, a phase is judged as the verdicts on their outcomes have it. The outcomes
are those of some of its first actors, each run on what the one before it has left.
-/
theorem judge_fits : ∃ ran,
    (phase.judge supply execution actors bench).outcomes =
      (Visit.runThrough supply execution phase.name ran bench).1.map Visit.outcome ∧
    (phase.judge supply execution actors bench).Fits phase.errorPolicy actors ran := by
  obtain ⟨ran, first, same, earlier, ends⟩ := Visit.makeAll_eq_runThrough supply execution
    phase.name (ActorResult.goesOn phase.errorPolicy) actors bench
  refine ⟨ran, by rw [judge, visits, same]; rfl, PhaseResult.fits_of_onward first ?_ ?_ ?_⟩
  · rw [visits, same, List.map_map]
    exact Visit.actors_runThrough ran bench
  · rw [visits, ← List.map_dropLast]
    exact List.forall_mem_map.mpr earlier
  · rcases ends with all | ⟨last, mem, stops⟩
    · exact .inl all
    · refine .inr ⟨last.outcome, ?_, stops⟩
      rw [visits, List.getLast?_map, Option.mem_def.mp mem]
      rfl

end Phase

end PhasedUpgrade
