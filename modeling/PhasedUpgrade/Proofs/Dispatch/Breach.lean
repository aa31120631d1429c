import PhasedUpgrade.Proofs.Dispatch.Reading
import PhasedUpgrade.Proofs.Upgrade.Tasks

/-!
# Breaches of contract

An actor that asks the bus for what its contract does not allow is told so, and may then do as it
likes: its phase is judged by how it ends, not by what it has been told. An actor that heeds
breaches hands on the first one by ending with it, as those do that are written as tasks. Then
nothing saves its phase, and neither does it if an actor hands on a breach just this once.
-/

namespace PhasedUpgrade

/-! ## What programs are told -/

/-- The breach that the bus tells of, if it does not grant a request. -/
def ContractViolation.told {α : Type} : Except ContractViolation α → List ContractViolation
  | .ok _ => []
  | .error violation => [violation]

namespace Program

variable {α β : Type}

section

variable (supply : Supply) (actor : Contract) (phase : String)

/-- The breaches that a program is told of, in the order of its requests. -/
def breaches : Program α → Workbench → List ContractViolation
  | .done _, _ => []
  | .produce draft next, bench =>
      let (result, after) := bench.produce supply actor phase draft
      ContractViolation.told result ++ (next result).breaches after
  | .consume typeName next, bench =>
      let result := bench.bus.consume actor typeName
      ContractViolation.told result ++ (next result).breaches bench
  | .answer heading key next, bench => (next (bench.answers.get? heading key)).breaches bench
  | .recordAnswer heading key value next, bench =>
      next.breaches { bench with answers := bench.answers.set heading key value }
  | .note _ _ next, bench => next.breaches bench

end

def EndsWith (value : α) : Program α → Prop
  | .done other => other = value
  | .produce _ next => ∀ result, (next result).EndsWith value
  | .consume _ next => ∀ result, (next result).EndsWith value
  | .answer _ _ next => ∀ answer, (next answer).EndsWith value
  | .recordAnswer _ _ _ next => next.EndsWith value
  | .note _ _ next => next.EndsWith value

/-- Whether a program that is told of a breach ends with it. -/
def Heeds : Program (Except Stop α) → Prop
  | .done _ => True
  | .produce _ next => (next (.ok ())).Heeds ∧
      ∀ violation, (next (.error violation)).EndsWith (.error (.contract violation))
  | .consume _ next => (∀ messages, (next (.ok messages)).Heeds) ∧
      ∀ violation, (next (.error violation)).EndsWith (.error (.contract violation))
  | .answer _ _ next => ∀ answer, (next answer).Heeds
  | .recordAnswer _ _ _ next => next.Heeds
  | .note _ _ next => next.Heeds

theorem EndsWith.run_eq {program : Program α} {value : α} (h : program.EndsWith value)
    (supply : Supply) (actor : Contract) (phase : String) (bench : Workbench) :
    (program.run supply actor phase bench).1 = value := by
  induction program generalizing bench with
  | done other => exact h
  | produce draft next ih => exact ih _ (h _) _
  | consume typeName next ih => exact ih _ (h _) bench
  | answer heading key next ih => exact ih _ (h _) bench
  | recordAnswer heading key value next ih => exact ih h _
  | note key value next ih => exact ih h bench

theorem EndsWith.bind {program : Program α} {value : α} (h : program.EndsWith value)
    {f : α → Program β} {last : β} (ends : (f value).EndsWith last) :
    (program.bind f).EndsWith last := by
  induction program with
  | done other =>
      obtain rfl : other = value := h
      exact ends
  | produce draft next ih => exact fun result => ih result (h result)
  | consume typeName next ih => exact fun result => ih result (h result)
  | answer heading key next ih => exact fun answer => ih answer (h answer)
  | recordAnswer heading key value next ih => exact ih h
  | note key value next ih => exact ih h

/-- A program that heeds breaches ends with the first one that it is told of. -/
theorem Heeds.run_eq {program : Program (Except Stop α)} (h : program.Heeds) {supply : Supply}
    {actor : Contract} {phase : String} {bench : Workbench} {cause : ContractViolation}
    (first : (program.breaches supply actor phase bench).head? = some cause) :
    (program.run supply actor phase bench).1 = .error (.contract cause) := by
  induction program generalizing bench with
  | done value => cases first
  | produce draft next ih =>
      unfold breaches at first
      unfold Program.run
      rcases made : bench.produce supply actor phase draft with ⟨violation | ⟨⟨⟩⟩, after⟩ <;>
        rw [made] at first
      · obtain rfl : violation = cause := Option.some.inj first
        exact (h.2 violation).run_eq supply actor phase after
      · exact ih _ h.1 first
  | consume typeName next ih =>
      unfold breaches at first
      unfold Program.run
      rcases made : bench.bus.consume actor typeName with violation | messages <;>
        rw [made] at first
      · obtain rfl : violation = cause := Option.some.inj first
        exact (h.2 violation).run_eq supply actor phase bench
      · exact ih _ (h.1 messages) first
  | answer heading key next ih => exact ih _ (h _) first
  | recordAnswer heading key value next ih => exact ih h first
  | note key value next ih => exact ih h first

/-- What comes behind a program that heeds breaches only has to heed those that come up there. -/
theorem Heeds.bind {program : Program (Except Stop α)} (h : program.Heeds)
    {f : Except Stop α → Program (Except Stop β)}
    (stops : ∀ stop, f (.error stop) = .done (.error stop))
    (goesOn : ∀ value, (f (.ok value)).Heeds) : (program.bind f).Heeds := by
  induction program with
  | done value =>
      cases value with
      | error stop =>
          show (f (.error stop)).Heeds
          rw [stops]
          trivial
      | ok value => exact goesOn value
  | produce draft next ih =>
      exact ⟨ih _ h.1, fun violation => (h.2 violation).bind ((stops _).symm ▸ rfl)⟩
  | consume typeName next ih =>
      exact ⟨fun messages => ih _ (h.1 messages),
        fun violation => (h.2 violation).bind ((stops _).symm ▸ rfl)⟩
  | answer heading key next ih => exact fun answer => ih answer (h answer)
  | recordAnswer heading key value next ih => exact ih h
  | note key value next ih => exact ih h

end Program

/-! ## Tasks -/

namespace Task

variable {α β : Type}

def Heeds (task : Task α) : Prop :=
  Program.Heeds task.run

theorem Heeds.bind {task : Task α} (h : task.Heeds) {f : α → Task β}
    (goesOn : ∀ value, (f value).Heeds) : Heeds (task >>= f) :=
  Program.Heeds.bind h (fun _ => rfl) goesOn

theorem heeds_pure (value : α) : Heeds (pure value) := trivial

theorem heeds_stop (stop : Stop) : Heeds (Task.stop stop : Task α) := trivial

theorem heeds_produce (draft : Message) : (produce draft).Heeds :=
  ⟨trivial, fun _ => rfl⟩

theorem heeds_consume (typeName : String) : (consume typeName).Heeds :=
  ⟨fun _ => trivial, fun _ => rfl⟩

theorem compositional_heeds : Compositional fun _ task => task.Heeds where
  pure := heeds_pure
  stop := heeds_stop
  produce := heeds_produce
  consume := heeds_consume
  bind h goesOn := h.bind goesOn

end Task

def Actor.Heeds (actor : Actor) : Prop :=
  ∀ view, (actor.behave view).Heeds

/-- The actors that every installation ships all heed breaches. -/
theorem Upgrade.heeds_of_mem_actors {paths : Paths} {actor : Actor} (mem : actor ∈ actors paths) :
    actor.Heeds :=
  Task.compositional_heeds.of_mem_actors mem

/-! ## Turns -/

namespace Visit

variable (supply : Supply) (execution : Execution) (phase : String)

def breaches (actor : Actor) (bench : Workbench) : List ContractViolation :=
  (actor.behave ⟨actor.name, phase, execution⟩).breaches supply actor.toContract phase
    (startOf supply execution phase actor bench)

/-- An actor hands a breach on: it is told of it in its turn, and ends with it. -/
structure HandsOn (cause : ContractViolation) (actor : Actor) (bench : Workbench) : Prop where
  told : cause ∈ breaches supply execution phase actor bench
  result_eq : (make supply execution phase actor bench).1.result = .violation cause

/-- The actors that get their turns, each with the bench that it finds. -/
def turns (goesOn : ActorResult → Bool) : List Actor → Workbench → List (Actor × Workbench)
  | [], _ => []
  | actor :: rest, bench =>
      let (visit, after) := make supply execution phase actor bench
      (actor, bench) :: if goesOn visit.result then turns goesOn rest after else []

variable {supply execution phase} {goesOn : ActorResult → Bool} {actor : Actor}
  {actors : List Actor} {bench : Workbench}

/-- An actor that heeds breaches hands on the first one that it is told of. -/
theorem handsOn_of_heeds (heeds : actor.Heeds) {cause : ContractViolation}
    (first : (breaches supply execution phase actor bench).head? = some cause) :
    HandsOn supply execution phase cause actor bench where
  told := List.mem_of_head? first
  result_eq := congrArg ActorResult.ofEnd ((heeds ⟨actor.name, phase, execution⟩).run_eq first)

theorem makeAll_eq_turns : (makeAll supply execution phase goesOn actors bench).1 =
    (turns supply execution phase goesOn actors bench).map fun turn =>
      (make supply execution phase turn.1 turn.2).1 := by
  induction actors generalizing bench with
  | nil => rfl
  | cons actor rest ih =>
      simp only [makeAll, turns]
      split
      · rw [List.map_cons, ← ih]
      · rfl

theorem getLast?_makeAll {turn : Visit}
    (mem : turn ∈ (makeAll supply execution phase goesOn actors bench).1)
    (stops : goesOn turn.result = false) :
    (makeAll supply execution phase goesOn actors bench).1.getLast? = some turn := by
  induction actors generalizing bench with
  | nil => cases mem
  | cons actor rest ih =>
      simp only [makeAll] at mem ⊢
      split at mem
      next onward =>
        rw [if_pos onward]
        rcases List.mem_cons.mp mem with rfl | later
        · rw [onward] at stops
          cases stops
        · have last := ih later
          rw [List.getLast?_cons, last]
          rfl
      next ended =>
        rw [if_neg ended, List.mem_singleton.mp mem]
        rfl

end Visit

/-! ## Phases -/

theorem ActorResult.not_goesOn_of_isTerminal {result : ActorResult}
    (h : result.isTerminal = true) (policy : ErrorPolicy) : result.goesOn policy = false := by
  cases result with
  | fatal _ _ | violation _ => rfl
  | completed | skipped _ | failed _ => cases h

namespace PhaseResult

variable {phase : Phase} {outcomes : List Outcome}

theorem terminal_iff : (conclude phase outcomes).terminal = true ↔
    ∃ outcome ∈ outcomes, outcome.result.isTerminal = true :=
  List.any_eq_true

theorem failed_of_terminal (h : (conclude phase outcomes).terminal = true) :
    (conclude phase outcomes).status = .failed :=
  if_pos (Bool.or_eq_true_iff.mpr (.inr h))

end PhaseResult

namespace Phase

variable (phase : Phase) (supply : Supply) (execution : Execution) (actors : List Actor)
  (bench : Workbench)

def turns : List (Actor × Workbench) :=
  Visit.turns supply execution phase.name (ActorResult.goesOn phase.errorPolicy) actors bench

/-- What a phase comes to when its actors are run. -/
def judge : PhaseResult :=
  .conclude phase ((phase.visits supply execution actors bench).1.map Visit.outcome)

variable {phase supply execution actors bench}

/-- A breach that is handed on fails the phase for good, whatever its error policy. -/
theorem judge_of_breach {actor : Actor} {found : Workbench} {cause : ContractViolation}
    (takes : (actor, found) ∈ phase.turns supply execution actors bench)
    (handsOn : Visit.HandsOn supply execution phase.name cause actor found) :
    (phase.judge supply execution actors bench).status = .failed ∧
      (phase.judge supply execution actors bench).terminal = true ∧
      (phase.judge supply execution actors bench).outcomes.getLast? =
        some ⟨actor.name, .violation cause⟩ := by
  have result := handsOn.result_eq
  have mem : (Visit.make supply execution phase.name actor found).1 ∈
      (phase.visits supply execution actors bench).1 := by
    unfold visits
    rw [Visit.makeAll_eq_turns]
    exact List.mem_map_of_mem takes
  have terminal : (phase.judge supply execution actors bench).terminal = true := by
    refine PhaseResult.terminal_iff.mpr ⟨_, List.mem_map_of_mem mem, ?_⟩
    show ActorResult.isTerminal (Visit.make _ _ _ _ _).1.result = true
    rw [result]
    rfl
  refine ⟨PhaseResult.failed_of_terminal terminal, terminal, ?_⟩
  have last := Visit.getLast?_makeAll mem (by rw [result]; rfl)
  refine (List.getLast?_map ..).trans ?_
  rw [visits, last, Option.map_some, Visit.outcome, result]
  rfl

end Phase

end PhasedUpgrade
