import PhasedUpgrade.Proofs.Dispatch.Reading
import PhasedUpgrade.Proofs.Message.Conveyance

/-!
# What actors lead to

What a behaviour comes to is told by the bus that it finds: a behaviour leads from buses with one
property to an end and to buses with another. Behaviours that follow each other lead on, and so do
the actors of a phase that each complete their turns or are skipped.
-/

namespace PhasedUpgrade

variable {α β : Type}

theorem Program.run_bind (supply : Supply) (actor : Contract) (phase : String)
    (program : Program α) (f : α → Program β) (bench : Workbench) :
    (program.bind f).run supply actor phase bench =
      let (value, between, notes) := program.run supply actor phase bench
      let (last, after, more) := (f value).run supply actor phase between
      (last, after, notes ++ more) := by
  induction program generalizing bench with
  | done value => rfl
  | produce draft next ih => exact ih _ _
  | consume typeName next ih => exact ih _ bench
  | answer heading key next ih => exact ih _ bench
  | recordAnswer heading key value next ih => exact ih _
  | note key value next ih =>
      show (_, _, (key, value) :: _) = _
      rw [ih]
      rfl

/-! ## Behaviours -/

namespace Task

/--
Whether a behaviour of an actor that finds a bus with a property comes to an end and leaves a bus as
it should.
-/
def Meets (actor : Contract) (before : Bus → Prop) (task : Task α)
    (after : Except Stop α → Bus → Prop) : Prop :=
  ∀ supply phase bench, before bench.bus →
    after (Program.run supply actor phase task.run bench).1
      (Program.run supply actor phase task.run bench).2.1.bus

variable {actor : Contract} {before : Bus → Prop} {after : Except Stop β → Bus → Prop}

/-- Whether a behaviour does not stop early and gives a value as it should. -/
def Gives (actor : Contract) (before : Bus → Prop) (task : Task α) (after : α → Bus → Prop) :
    Prop :=
  task.Meets actor before fun ended bus => ∃ value, ended = .ok value ∧ after value bus

theorem Gives.bind {task : Task α} {between : α → Bus → Prop}
    (h : task.Gives actor before between) {f : α → Task β}
    (goesOn : ∀ value, (f value).Meets actor (between value) after) :
    Meets actor before (task >>= f) after := by
  intro supply phase bench holds
  obtain ⟨value, ended, between⟩ := h supply phase bench holds
  have whole : (task >>= f).run = Program.bind task.run (ExceptT.bindCont f) := rfl
  rw [whole, Program.run_bind]
  dsimp only
  rw [ended]
  exact goesOn value supply phase _ between

theorem gives_pure {after : α → Bus → Prop} {value : α} (h : ∀ bus, before bus → after value bus) :
    Gives actor before (pure value) after :=
  fun _ _ bench holds => ⟨value, rfl, h bench.bus holds⟩

theorem meets_stop {stop : Stop} (h : ∀ bus, before bus → after (.error stop) bus) :
    Meets actor before (Task.stop stop) after :=
  fun _ _ bench holds => h bench.bus holds

theorem gives_produceModel {model : Model α} {value : α} (declared : model.name ∈ actor.produces)
    (conveys : model.Conveys value) {after : Bus → Prop}
    (known : ∀ bus, before bus → bus.catalog.get? model.name = some model.schema)
    (h : ∀ bus phase time, before bus → after (bus.told actor phase (model.draft value) time)) :
    Gives actor before (produceModel model value) fun _ => after := by
  intro supply phase bench holds
  have accepted := Bus.produce_draft (known bench.bus holds) conveys declared phase
    (supply.time bench.used)
  have made : bench.produce supply actor phase (model.draft value) = (.ok (), { bench with
      bus := bench.bus.told actor phase (model.draft value) (supply.time bench.used)
      used := bench.used + 1 }) := by
    rw [Workbench.produce, accepted]
  have ran : Program.run supply actor phase (produceModel model value).run bench =
      (heed (bench.produce supply actor phase (model.draft value)).1,
        (bench.produce supply actor phase (model.draft value)).2, []) := rfl
  rw [ran, made]
  exact ⟨(), rfl, h bench.bus phase _ holds⟩

theorem gives_consume {model : Model α} {values : List α} (declared : model.name ∈ actor.consumes)
    (carries : ∀ bus, before bus → bus.Carries model values) :
    Gives actor before (consume model.name) fun messages bus => before bus ∧
      List.Forall₂ (fun message value => model.read message = .ok value) messages values := by
  intro supply phase bench holds
  obtain ⟨messages, found, each⟩ := (carries bench.bus holds).consume declared
  have ran : Program.run supply actor phase (consume model.name).run bench =
      (heed (bench.bus.consume actor model.name), bench, []) := rfl
  rw [ran, found]
  exact ⟨messages, rfl, holds, each⟩

theorem gives_consumeOne {model : Model α} {first : α} {others : List α} {name : String}
    (declared : model.name ∈ actor.consumes)
    (carries : ∀ bus, before bus → bus.Carries model (first :: others)) :
    Gives actor before (consumeOne name model)
      fun found bus => found = some first ∧ before bus := by
  refine (gives_consume declared carries).bind fun messages => ?_
  cases messages with
  | nil => exact fun supply phase bench ⟨_, each⟩ => nomatch each
  | cons message rest =>
      intro supply phase bench ⟨holds, each⟩
      have read : Task.read name model message = pure first := by
        rw [Task.read, (List.forall₂_cons.mp each).1]
      dsimp only
      rw [read]
      exact ⟨some first, rfl, rfl, holds⟩

theorem gives_forIn_read {model : Model α} {name : String} {messages : List Message}
    (readable : ∀ message ∈ messages, ∃ value, model.read message = .ok value) :
    Gives actor before
      (forIn messages PUnit.unit fun message _ => do
        let _ ← Task.read name model message
        pure (.yield PUnit.unit))
      fun _ => before := by
  induction messages with
  | nil => exact gives_pure fun _ holds => holds
  | cons message rest ih =>
      obtain ⟨⟨value, here⟩, later⟩ := List.forall_mem_cons.mp readable
      have read : Task.read name model message = pure value := by
        rw [Task.read, here]
      rw [List.forIn_cons, read]
      exact ih later

end Task

/-! ## Turns -/

def ActorResult.IsQuiet : ActorResult → Prop
  | completed | skipped _ => True
  | fatal _ _ | violation _ | failed _ => False

theorem ActorResult.IsQuiet.goesOn {result : ActorResult} (h : result.IsQuiet)
    (policy : ErrorPolicy) : result.goesOn policy = true := by
  cases result with
  | completed | skipped _ => rfl
  | fatal _ _ | violation _ | failed _ => exact h.elim

theorem ActorResult.IsQuiet.not_fails {result : ActorResult} (h : result.IsQuiet)
    (policy : ErrorPolicy) : ¬ result.fails policy = true := by
  cases result with
  | completed | skipped _ => exact Bool.false_ne_true
  | fatal _ _ | violation _ | failed _ => exact h.elim

theorem ActorResult.IsQuiet.not_terminal {result : ActorResult} (h : result.IsQuiet) :
    ¬ result.isTerminal = true := by
  cases result with
  | completed | skipped _ => exact Bool.false_ne_true
  | fatal _ _ | violation _ | failed _ => exact h.elim

theorem PhaseResult.succeeded_of_quiet {phase : Phase} {outcomes : List Outcome}
    (quiet : ∀ outcome ∈ outcomes, outcome.result.IsQuiet) :
    (conclude phase outcomes).succeeded = true := by
  have lasting : ∀ outcome ∈ outcomes, ¬ outcome.result.isTerminal = true :=
    fun outcome mem => (quiet outcome mem).not_terminal
  have failing : ∀ outcome ∈ outcomes, ¬ outcome.result.fails phase.errorPolicy = true :=
    fun outcome mem => (quiet outcome mem).not_fails phase.errorPolicy
  simp [succeeded, conclude, List.any_eq_false.mpr lasting, List.any_eq_false.mpr failing]

theorem Task.Gives.quiet {actor : Contract} {before after : Bus → Prop} {task : Task Unit}
    (h : task.Gives actor before fun _ => after) :
    task.Meets actor before fun ended bus => (ActorResult.ofEnd ended).IsQuiet ∧ after bus := by
  intro supply phase bench holds
  obtain ⟨_, ended, left⟩ := h supply phase bench holds
  rw [ended]
  exact ⟨trivial, left⟩

/-- Whether an actor leads quietly from buses with one property to buses with another. -/
def Actor.Leads (configuration : Configuration) (before : Bus → Prop) (actor : Actor)
    (after : Bus → Prop) : Prop :=
  ∀ view, view.execution.configuration = configuration →
    (actor.behave view).Meets actor.toContract before fun ended bus =>
      (ActorResult.ofEnd ended).IsQuiet ∧ after bus

/-- Whether actors that take their turns one after the other do so. -/
inductive Actor.LeadOn (configuration : Configuration) :
    (Bus → Prop) → List Actor → (Bus → Prop) → Prop
  | none (before : Bus → Prop) : LeadOn configuration before [] before
  | next {before between after : Bus → Prop} {actor : Actor} {rest : List Actor} :
      actor.Leads configuration before between → LeadOn configuration between rest after →
        LeadOn configuration before (actor :: rest) after

section

variable {configuration : Configuration} {before after : Bus → Prop} {execution : Execution}

theorem Actor.Leads.make {actor : Actor} (h : actor.Leads configuration before after)
    (configured : execution.configuration = configuration) (supply : Supply) (phase : String)
    {bench : Workbench} (holds : before bench.bus) :
    (Visit.make supply execution phase actor bench).1.result.IsQuiet ∧
      after (Visit.make supply execution phase actor bench).2.bus :=
  -- The entries of the trail around the turn leave the bus alone.
  h ⟨actor.name, phase, execution⟩ configured supply phase
    (bench.record supply (Visit.entry execution phase actor.name "actor_started" "")) holds

theorem Actor.LeadOn.makeAll {actors : List Actor}
    (h : Actor.LeadOn configuration before actors after)
    (configured : execution.configuration = configuration) (supply : Supply) (phase : String)
    (policy : ErrorPolicy) {bench : Workbench} (holds : before bench.bus) :
    let made := Visit.makeAll supply execution phase (ActorResult.goesOn policy) actors bench
    (∀ visit ∈ made.1, visit.result.IsQuiet) ∧ after made.2.bus := by
  induction h generalizing bench with
  | none before => exact ⟨nofun, holds⟩
  | @next _ _ _ actor rest first _ ih =>
      obtain ⟨quiet, between⟩ := first.make configured supply phase holds
      obtain ⟨others, last⟩ := ih between
      simp only [Visit.makeAll, quiet.goesOn policy, if_true, List.forall_mem_cons]
      exact ⟨⟨quiet, others⟩, last⟩

end

end PhasedUpgrade
