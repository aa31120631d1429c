import PhasedUpgrade.Proofs.Answers.Assignment
import PhasedUpgrade.Proofs.Run.Durability

/-!
# Answers that are asked for and recorded

An actor that asks for an answer is told what has been recorded last for it: in its own turn, by an
actor in front of it, or else before the run.
-/

namespace PhasedUpgrade

/-- A dealing with an answer: it is asked for, which tells what is there, or it is recorded. -/
inductive Exchange where
  | asked (heading key : String) (told : Option Toml.Value)
  | recorded (heading key : String) (value : Toml.Value)

def Exchange.last? (heading key : String) : List Exchange → Option Toml.Value
  | [] => none
  | .asked _ _ _ :: rest => last? heading key rest
  | .recorded other name value :: rest =>
      (last? heading key rest).or (if heading = other ∧ key = name then some value else none)

/-! ## Answers along exchanges -/

namespace Answers

def after : Answers → List Exchange → Answers
  | answers, [] => answers
  | answers, .asked _ _ _ :: rest => answers.after rest
  | answers, .recorded heading key value :: rest => (answers.set heading key value).after rest

/-- Whether whoever asks among exchanges is told what the answers hold then. -/
def Tells : Answers → List Exchange → Prop
  | _, [] => True
  | answers, .asked heading key told :: rest => told = answers.get? heading key ∧ answers.Tells rest
  | answers, .recorded heading key value :: rest => (answers.set heading key value).Tells rest

variable {answers : Answers} {first second : List Exchange}

theorem after_append (answers : Answers) (first second : List Exchange) :
    answers.after (first ++ second) = (answers.after first).after second := by
  induction first generalizing answers with
  | nil => rfl
  | cons exchange rest ih => cases exchange <;> exact ih _

theorem tells_append :
    answers.Tells (first ++ second) ↔ answers.Tells first ∧ (answers.after first).Tells second := by
  induction first generalizing answers with
  | nil => simp [Tells, after]
  | cons exchange rest ih =>
      cases exchange with
      | asked heading key told => simp [Tells, after, ih, and_assoc]
      | recorded heading key value => exact ih

/-- The answers hold what has been recorded last, or what they held before. -/
theorem get?_after (answers : Answers) (exchanges : List Exchange) (heading key : String) :
    (answers.after exchanges).get? heading key =
      (Exchange.last? heading key exchanges).or (answers.get? heading key) := by
  induction exchanges generalizing answers with
  | nil => rfl
  | cons exchange rest ih =>
      cases exchange with
      | asked other name told => exact ih answers
      | recorded other name value =>
          rw [after, ih, get?_set, Exchange.last?, Option.or_assoc]
          split <;> rfl

/-- Who asks is told what has been recorded last before. -/
theorem Tells.told_eq {before behind : List Exchange} {heading key : String}
    {told : Option Toml.Value}
    (h : answers.Tells (before ++ .asked heading key told :: behind)) :
    told = (Exchange.last? heading key before).or (answers.get? heading key) :=
  (tells_append.mp h).2.1.trans (get?_after answers before heading key)

end Answers

/-! ## Exchanges of actors -/

section

variable (supply : Supply)

def Program.exchanges {α : Type} (actor : Contract) (phase : String) :
    Program α → Workbench → List Exchange
  | .done _, _ => []
  | .produce draft next, bench =>
      let (result, after) := bench.produce supply actor phase draft
      (next result).exchanges actor phase after
  | .consume typeName next, bench =>
      (next (bench.bus.consume actor typeName)).exchanges actor phase bench
  | .answer heading key next, bench =>
      .asked heading key (bench.answers.get? heading key) ::
        (next (bench.answers.get? heading key)).exchanges actor phase bench
  | .recordAnswer heading key value next, bench =>
      .recorded heading key value :: next.exchanges actor phase
        { bench with answers := bench.answers.set heading key value }
  | .note _ _ next, bench => next.exchanges actor phase bench

theorem Workbench.answers_produce (actor : Contract) (phase : String) (bench : Workbench)
    (draft : Message) : (bench.produce supply actor phase draft).2.answers = bench.answers := by
  unfold produce
  split <;> rfl

theorem Program.exchanges_spec {α : Type} (actor : Contract) (phase : String)
    (program : Program α) (bench : Workbench) :
    bench.answers.Tells (program.exchanges supply actor phase bench) ∧
      (program.run supply actor phase bench).2.1.answers =
        bench.answers.after (program.exchanges supply actor phase bench) := by
  induction program generalizing bench with
  | done value => exact ⟨trivial, rfl⟩
  | produce draft next ih =>
      have later := ih (bench.produce supply actor phase draft).1
        (bench.produce supply actor phase draft).2
      rwa [Workbench.answers_produce] at later
  | consume typeName next ih => exact ih _ bench
  | answer heading key next ih =>
      obtain ⟨tells, left⟩ := ih (bench.answers.get? heading key) bench
      exact ⟨⟨rfl, tells⟩, left⟩
  | recordAnswer heading key value next ih =>
      exact ih { bench with answers := bench.answers.set heading key value }
  | note key value next ih => exact ih bench

def Visit.exchanges (execution : Execution) (phase : String) (actor : Actor) (bench : Workbench) :
    List Exchange :=
  (actor.behave ⟨actor.name, phase, execution⟩).exchanges supply actor.toContract phase
    (startOf supply execution phase actor bench)

theorem Visit.exchanges_spec (execution : Execution) (phase : String) (actor : Actor)
    (bench : Workbench) :
    bench.answers.Tells (exchanges supply execution phase actor bench) ∧
      (make supply execution phase actor bench).1.answers =
        bench.answers.after (exchanges supply execution phase actor bench) :=
  (actor.behave ⟨actor.name, phase, execution⟩).exchanges_spec supply actor.toContract phase
    (startOf supply execution phase actor bench)

end

/-! ## Exchanges of runs -/

/-- Whether a visit is the turn of an actor that makes given exchanges in given surroundings. -/
def Visit.Exchanges (registry : Registry) (supply : Supply) (found : Surroundings) (turn : Visit)
    (made : List Exchange) : Prop :=
  ∃ actor ∈ registry.actors, ∃ execution bench, bench.surroundings = found ∧
    turn = (Visit.make supply execution turn.phase actor bench).1 ∧
    made = Visit.exchanges supply execution turn.phase actor bench

/-- Whether the visits among some steps make given exchanges, each in what those before it left. -/
def RunStep.Exchanges (registry : Registry) (supply : Supply) :
    Surroundings → List RunStep → List Exchange → Prop
  | _, [], made => made = []
  | found, .visit turn :: rest, made => ∃ here later, made = here ++ later ∧
      turn.Exchanges registry supply found here ∧
      Exchanges registry supply (found.after turn) rest later
  | found, .setVariable _ _ :: rest, made => Exchanges registry supply found rest made
  | found, .save _ :: rest, made => Exchanges registry supply found rest made
  | found, .saveJournal _ _ :: rest, made => Exchanges registry supply found rest made

namespace RunStep

variable {registry : Registry} {supply : Supply} {found : Surroundings} {steps : List RunStep}
  {made : List Exchange}

theorem MadeFrom.exists_exchanges (h : MadeFrom registry supply found steps) :
    ∃ made, Exchanges registry supply found steps made := by
  induction steps generalizing found with
  | nil => exact ⟨[], rfl⟩
  | cons step rest ih =>
      cases step with
      | visit turn =>
          obtain ⟨⟨actor, known, execution, bench, same, turned⟩, others⟩ := h
          obtain ⟨later, exchanged⟩ := ih others
          exact ⟨_, _, later, rfl, ⟨actor, known, execution, bench, same, turned, rfl⟩, exchanged⟩
      | setVariable name value => exact ih h
      | save execution => exact ih h
      | saveJournal id journal => exact ih h

theorem Exchanges.spec (h : Exchanges registry supply found steps made) :
    found.answers.Tells made ∧ (found.behind steps).answers = found.answers.after made := by
  induction steps generalizing found made with
  | nil =>
      obtain rfl := h
      exact ⟨trivial, rfl⟩
  | cons step rest ih =>
      cases step with
      | visit turn =>
          obtain ⟨here, later, rfl, ⟨actor, _, execution, bench, rfl, turned, rfl⟩, others⟩ := h
          obtain ⟨tells, left⟩ := Visit.exchanges_spec supply execution turn.phase actor bench
          rw [← turned] at left
          obtain ⟨tellsLater, leftLater⟩ := ih others
          have between : (bench.surroundings.after turn).answers = bench.surroundings.answers.after
              (Visit.exchanges supply execution turn.phase actor bench) := left
          rw [between] at tellsLater leftLater
          exact ⟨Answers.tells_append.mpr ⟨tells, tellsLater⟩,
            leftLater.trans (Answers.after_append _ _ _).symm⟩
      | setVariable name value => exact ih h
      | save execution => exact ih h
      | saveJournal id journal => exact ih h

end RunStep

theorem EndedRun.answers_eq_behind {σ : Type} (run : EndedRun σ) (found : Surroundings) :
    run.answers found.answers = (found.behind run.steps).answers := by
  obtain ⟨result, steps, store⟩ := run
  unfold answers visits
  induction steps generalizing found with
  | nil => rfl
  | cons step rest ih =>
      cases step with
      | visit turn =>
          simp only [List.filterMap_cons, List.getLast?_cons, Option.map_some, Option.getD_some]
          refine Eq.trans ?_ (ih (found.after turn))
          simp only [Surroundings.after]
          cases (List.filterMap _ rest).getLast? <;> rfl
      | setVariable name value => exact ih found
      | save execution => exact ih found
      | saveJournal id journal => exact ih found

section

variable {σ : Type} [Store σ] (setting : Setting) (supply : Supply) (request : RunRequest)
  (options : RunOptions) (answers : Answers) (store : σ)

def Setting.Exchanges (made : List Exchange) : Prop :=
  match (setting.entry supply request store).1 with
  | .error _ => made = []
  | .ok entry => RunStep.Exchanges setting.registry supply
      ⟨⟨setting.registry.catalog, entry.journal.messages⟩, answers⟩
      (setting.run supply request options answers store).steps made

theorem Setting.exists_exchanges :
    ∃ made, setting.Exchanges supply request options answers store made := by
  unfold Setting.Exchanges
  cases entered : (setting.entry supply request store).1 with
  | error error => exact ⟨[], rfl⟩
  | ok entry =>
      refine RunStep.MadeFrom.exists_exchanges ?_
      cases planned : setting.account supply options answers entry with
      | error error =>
          have unacted : (setting.run supply request options answers store).steps = [] := by
            by_contra acts
            obtain ⟨other, account, again, made⟩ := Setting.exists_account acts
            rw [entered] at again
            rw [← Except.ok.inj again, planned] at made
            cases made
          rw [unacted]
          trivial
      | ok account =>
          rw [Setting.run_eq entered planned, Account.steps_perform]
          exact RunStep.MadeFrom.of_prefix (Setting.account_madeFrom supply planned)
            (RunStep.performAll_prefix account.steps _).1

variable {setting supply request options answers store} {made : List Exchange}

/-- Whoever asks in a run is told what was recorded last, and the run leaves what was recorded. -/
theorem Setting.Exchanges.spec (h : setting.Exchanges supply request options answers store made) :
    answers.Tells made ∧ (setting.run supply request options answers store).answers answers =
      answers.after made := by
  unfold Setting.Exchanges at h
  cases entered : (setting.entry supply request store).1 with
  | error error =>
      rw [entered] at h
      obtain rfl : made = [] := h
      refine ⟨trivial, ?_⟩
      rcases acts : (setting.run supply request options answers store).steps with _ | ⟨step, rest⟩
      · unfold EndedRun.answers EndedRun.visits
        rw [acts]
        rfl
      · obtain ⟨_, _, again, _⟩ := Setting.exists_account (acts ▸ List.cons_ne_nil step rest)
        rw [entered] at again
        cases again
  | ok entry =>
      rw [entered] at h
      obtain ⟨tells, left⟩ := RunStep.Exchanges.spec h
      exact ⟨tells, (EndedRun.answers_eq_behind _ _).trans left⟩

end

end PhasedUpgrade
