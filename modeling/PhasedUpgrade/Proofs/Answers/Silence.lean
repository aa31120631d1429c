import PhasedUpgrade.Proofs.Actor.Enrolment
import PhasedUpgrade.Proofs.Answers.Survival
import PhasedUpgrade.Proofs.Upgrade.Tasks

/-!
# Actors without answers

What an actor records is saved with its run, so it is lost where the run ends in an error. The
shipped actors have nothing to lose: they neither ask for answers nor record any.
-/

namespace PhasedUpgrade

/-! ## Silent programs -/

namespace Program

variable {α β : Type}

/-- Whether a program makes no exchange, whatever it is told. -/
def Silent : Program α → Prop
  | .done _ => True
  | .produce _ next => ∀ result, (next result).Silent
  | .consume _ next => ∀ result, (next result).Silent
  | .answer _ _ _ => False
  | .recordAnswer _ _ _ _ => False
  | .note _ _ next => next.Silent

theorem Silent.bind {program : Program α} (h : program.Silent) {f : α → Program β}
    (goesOn : ∀ value, (f value).Silent) : (program.bind f).Silent := by
  induction program with
  | done value => exact goesOn value
  | produce draft next ih => exact fun result => ih result (h result)
  | consume typeName next ih => exact fun result => ih result (h result)
  | answer heading key next => cases h
  | recordAnswer heading key value next => cases h
  | note key value next ih => exact ih h

theorem Silent.exchanges_eq {program : Program α} (h : program.Silent) (supply : Supply)
    (actor : Contract) (phase : String) (bench : Workbench) :
    program.exchanges supply actor phase bench = [] := by
  induction program generalizing bench with
  | done value => rfl
  | produce draft next ih => exact ih _ (h _) _
  | consume typeName next ih => exact ih _ (h _) bench
  | answer heading key next => cases h
  | recordAnswer heading key value next => cases h
  | note key value next ih => exact ih h bench

end Program

def Task.Silent {α : Type} (task : Task α) : Prop :=
  Program.Silent task.run

theorem Task.compositional_silent : Task.Compositional fun _ task => task.Silent where
  pure _ := trivial
  stop _ := trivial
  produce _ _ := trivial
  consume _ _ := trivial
  bind h goesOn := Program.Silent.bind h fun
    | .error _ => trivial
    | .ok value => goesOn value

def Actor.Silent (actor : Actor) : Prop :=
  ∀ view, (actor.behave view).Silent

/-! ## Silent runs -/

section

variable {registry : Registry} {supply : Supply} {made : List Exchange}

theorem RunStep.Exchanges.eq_nil (silent : ∀ actor ∈ registry.actors, actor.Silent)
    {found : Surroundings} {steps : List RunStep}
    (h : Exchanges registry supply found steps made) : made = [] := by
  induction steps generalizing found made with
  | nil => exact h
  | cons step rest ih =>
      cases step with
      | visit turn =>
          obtain ⟨here, later, rfl, ⟨actor, known, execution, bench, _, _, rfl⟩, others⟩ := h
          rw [ih others, List.append_nil]
          exact (silent actor known _).exchanges_eq supply _ _ _
      | setVariable name value => exact ih h
      | save execution => exact ih h
      | saveJournal id journal => exact ih h

theorem Setting.Exchanges.eq_nil {σ : Type} [Store σ] {setting : Setting}
    (silent : ∀ actor ∈ setting.registry.actors, actor.Silent) {request : RunRequest}
    {options : RunOptions} {answers : Answers} {store : σ}
    (h : setting.Exchanges supply request options answers store made) : made = [] := by
  unfold Setting.Exchanges at h
  split at h
  · exact h
  · exact RunStep.Exchanges.eq_nil silent h

end

/-! ## The shipped actors -/

namespace Upgrade

theorem silent_of_mem_registry {paths : Paths} {actor : Actor}
    (mem : actor ∈ (registry paths).actors) : actor.Silent :=
  Task.compositional_silent.of_mem_actors
    ((Registry.sublist_after (catalog.toOption.getD .builtin) (actors paths)).subset mem)

namespace Machine

variable {machine : Machine} {settings : Settings} {kind : ExecutionKind} {arguments : Arguments}

/--
A run of the program makes no exchange, however it ends, and leaves the answers that it began with:
nothing that one of its actors has recorded is lost with an error.
-/
theorem answers_of_run {undertaking : Undertaking}
    (undertaken : machine.undertaking settings kind arguments = .ok undertaking) {σ : Type}
    [Store σ] (supply : Supply) (store : σ) :
    (∀ made, undertaking.setting.Exchanges supply undertaking.request undertaking.options
        undertaking.answers store made → made = []) ∧
      (undertaking.setting.run supply undertaking.request undertaking.options undertaking.answers
        store).answers undertaking.answers = undertaking.answers := by
  have silent : ∀ actor ∈ undertaking.setting.registry.actors, actor.Silent := by
    rw [(parts_of_undertaking undertaken).2]
    exact fun actor mem => silent_of_mem_registry mem
  obtain ⟨made, exchanged⟩ := undertaking.setting.exists_exchanges supply undertaking.request
    undertaking.options undertaking.answers store
  refine ⟨fun made exchanged => exchanged.eq_nil silent, ?_⟩
  rw [exchanged.spec.2, exchanged.eq_nil silent]
  rfl

/-- Only the operator's commands save anything new to the file of answers. -/
theorem Saves.eq_nil_of_run {supply : Supply} {saved : List Exchange}
    (saves : machine.Saves settings supply (.run kind arguments) saved) : saved = [] := by
  simp only [Saves] at saves
  split at saves
  next undertaking _ undertaken _ => exact (answers_of_run undertaken supply _).1 saved saves
  next => exact saves

end Machine

end Upgrade

end PhasedUpgrade
