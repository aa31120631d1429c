import PhasedUpgrade.Dispatch.Judgement
import PhasedUpgrade.Proofs.Message.Bus

/-!
# What actors leave and find on the bus

Whatever an actor does, it only appends to the bus, and what it appends bears the phase of its turn.
The visits of a phase therefore say all that has happened to the log. Its messages are numbered from
one on, since the bus stamps each with the number behind the last one. An actor reads what is on the
bus when it asks: messages that were there before its turn, or that it has produced itself.
-/

namespace PhasedUpgrade

/-! ## What actors leave -/

/-- Behind the log of a bench some messages of a phase have been appended. -/
structure Workbench.Appended (before after : Workbench) (phase : String)
    (produced : List Message) : Prop where
  log_eq : after.bus.log = before.bus.log ++ produced
  stamped : ∀ message ∈ produced, message.phase = phase

namespace Workbench.Appended

variable {a b c : Workbench} {phase : String} {first second : List Message}

theorem refl (a : Workbench) (phase : String) : Appended a a phase [] :=
  ⟨by simp, by simp⟩

theorem trans (h₁ : Appended a b phase first) (h₂ : Appended b c phase second) :
    Appended a c phase (first ++ second) where
  log_eq := by rw [h₂.log_eq, h₁.log_eq, List.append_assoc]
  stamped message mem := by
    rcases List.mem_append.mp mem with mem | mem
    · exact h₁.stamped message mem
    · exact h₂.stamped message mem

theorem drop_eq (h : Appended a b phase first) : b.bus.log.drop a.bus.log.length = first := by
  rw [h.log_eq, List.drop_left]

end Workbench.Appended

/-- An accepted draft is appended under the phase of its turn; a refused one leaves no trace. -/
theorem Workbench.produce_appends (bench : Workbench) (supply : Supply) (actor : Contract)
    (phase : String) (draft : Message) :
    ∃ produced, Appended bench (bench.produce supply actor phase draft).2 phase produced ∧
      ∀ message ∈ produced, message.typeName ∈ actor.produces := by
  unfold Workbench.produce
  cases result : bench.bus.produce actor phase draft (supply.time bench.used) with
  | error violation => exact ⟨[], .refl bench phase, by simp⟩
  | ok bus =>
      obtain ⟨declared, _, rfl⟩ := Bus.produce_spec result
      refine ⟨[bench.bus.stamp actor phase draft (supply.time bench.used)], ⟨rfl, ?_⟩, ?_⟩
      · simp [Bus.stamp, Message.stamped]
      · exact List.forall_mem_singleton.mpr (NameSet.contains_iff.mp declared)

/-- Running a program appends messages of its phase and does nothing else to the log. -/
theorem Program.run_appends {α : Type} (supply : Supply) (actor : Contract) (phase : String)
    (program : Program α) (bench : Workbench) :
    ∃ produced, Workbench.Appended bench (program.run supply actor phase bench).2.1 phase
        produced ∧
      ∀ message ∈ produced, message.typeName ∈ actor.produces := by
  induction program generalizing bench with
  | done value => exact ⟨[], .refl bench phase, by simp⟩
  | produce draft next ih =>
      obtain ⟨first, h₁, declared₁⟩ := bench.produce_appends supply actor phase draft
      obtain ⟨second, h₂, declared₂⟩ := ih (bench.produce supply actor phase draft).1
        (bench.produce supply actor phase draft).2
      exact ⟨first ++ second, h₁.trans h₂, List.forall_mem_append.mpr ⟨declared₁, declared₂⟩⟩
  | consume typeName next ih => exact ih _ bench
  | answer heading key next ih => exact ih _ bench
  | recordAnswer heading key value next ih =>
      obtain ⟨produced, h, declared⟩ :=
        ih { bench with answers := bench.answers.set heading key value }
      exact ⟨produced, ⟨h.log_eq, h.stamped⟩, declared⟩
  | note key value next ih => exact ih bench

namespace Visit

/-- The visits of a phase, as far as the steps of a run tell. -/
structure OfPhase (visit : Visit) (execution : ExecutionId) (phase : String) : Prop where
  execution_eq : visit.execution = execution
  phase_eq : visit.phase = phase
  stamped : ∀ message ∈ visit.produced, message.phase = phase

theorem make_spec (supply : Supply) (execution : Execution) (phase : String) (actor : Actor)
    (bench : Workbench) :
    (make supply execution phase actor bench).1.OfPhase execution.id phase ∧
      Workbench.Appended bench (make supply execution phase actor bench).2 phase
        (make supply execution phase actor bench).1.produced ∧
      ∀ message ∈ (make supply execution phase actor bench).1.produced,
        message.typeName ∈ actor.produces := by
  obtain ⟨produced, ran, declared⟩ := Program.run_appends supply actor.toContract phase
    (actor.behave ⟨actor.name, phase, execution⟩)
    (bench.record supply (entry execution phase actor.name "actor_started" ""))
  -- The entries of the trail around the actor leave the bus alone.
  have whole : Workbench.Appended bench (make supply execution phase actor bench).2 phase
      produced := ⟨ran.log_eq, ran.stamped⟩
  have same : (make supply execution phase actor bench).1.produced = produced := whole.drop_eq
  exact ⟨⟨rfl, rfl, same ▸ whole.stamped⟩, same ▸ whole, same ▸ declared⟩

theorem makeAll_spec (supply : Supply) (execution : Execution) (phase : String)
    (goesOn : ActorResult → Bool) (actors : List Actor) (bench : Workbench) :
    (∀ visit ∈ (makeAll supply execution phase goesOn actors bench).1,
      visit.OfPhase execution.id phase) ∧
    Workbench.Appended bench (makeAll supply execution phase goesOn actors bench).2 phase
      ((makeAll supply execution phase goesOn actors bench).1.flatMap Visit.produced) := by
  induction actors generalizing bench with
  | nil => exact ⟨by simp [makeAll], .refl bench phase⟩
  | cons actor rest ih =>
      obtain ⟨turn, appended, _⟩ := make_spec supply execution phase actor bench
      obtain ⟨turns, later⟩ := ih (make supply execution phase actor bench).2
      simp only [makeAll]
      split
      · refine ⟨?_, ?_⟩
        · intro visit mem
          rcases List.mem_cons.mp mem with rfl | mem
          · exact turn
          · exact turns visit mem
        · simpa using appended.trans later
      · refine ⟨?_, ?_⟩
        · intro visit mem
          rw [List.mem_singleton.mp mem]
          exact turn
        · simpa using appended

end Visit

/-! ## Numbers of messages -/

namespace Message

/-- Each message bears its place in the log, counted from one. -/
def Numbered (log : List Message) : Prop :=
  ∀ place message, log[place]? = some message → message.sequence = place + 1

namespace Numbered

variable {log : List Message}

theorem nil : Numbered [] :=
  fun _ _ none => nomatch none

theorem of_prefix (h : Numbered log) {first : List Message} (part : first <+: log) :
    Numbered first := by
  intro place message found
  obtain ⟨rest, rfl⟩ := part
  refine h place message ?_
  rw [List.getElem?_append_left (List.getElem?_eq_some_iff.mp found).1]
  exact found

theorem concat (h : Numbered log) {message : Message}
    (next : message.sequence = log.length + 1) : Numbered (log ++ [message]) := by
  intro place other found
  rcases Nat.lt_trichotomy place log.length with before | here | behind
  · rw [List.getElem?_append_left before] at found
    exact h place other found
  · rw [here, List.getElem?_concat_length] at found
    rw [← Option.some.inj found, next, here]
  · rw [List.getElem?_eq_none (by simp; omega)] at found
    cases found

end Numbered

end Message

namespace Bus

variable {bus later : Bus} {actor : Contract} {phase : String} {draft : Message}
  {time : Time.Instant}

theorem nextSequence_eq (h : Message.Numbered bus.log) :
    bus.nextSequence = bus.log.length + 1 := by
  unfold nextSequence
  cases last : bus.log.getLast? with
  | none => simp [List.getLast?_eq_none_iff.mp last]
  | some message =>
      rw [List.getLast?_eq_getElem?] at last
      have inside := (List.getElem?_eq_some_iff.mp last).1
      have number := h _ message last
      simp only [Option.map_some, Option.getD_some]
      omega

theorem numbered_of_produce (h : Message.Numbered bus.log)
    (accepted : bus.produce actor phase draft time = .ok later) :
    Message.Numbered later.log := by
  obtain ⟨_, _, rfl⟩ := produce_spec accepted
  exact h.concat (nextSequence_eq h)

theorem consume_eq_ok_iff {typeName : String} {messages : List Message} :
    bus.consume actor typeName = .ok messages ↔
      typeName ∈ actor.consumes ∧ bus.messagesOf typeName = messages := by
  unfold consume
  rw [← NameSet.contains_iff]
  split
  next declared => simp [declared]
  next undeclared => simp [undeclared]

theorem mem_of_consume {typeName : String} {messages : List Message}
    (h : bus.consume actor typeName = .ok messages) {message : Message}
    (mem : message ∈ messages) : message ∈ bus.log := by
  obtain ⟨_, rfl⟩ := consume_eq_ok_iff.mp h
  exact (List.mem_filter.mp mem).1

end Bus

/-! ## What a program comes by -/

namespace Program

variable {α : Type} (supply : Supply) (actor : Contract) (phase : String)

def buses : Program α → Workbench → List Bus
  | .done _, bench => [bench.bus]
  | .produce draft next, bench =>
      let (result, after) := bench.produce supply actor phase draft
      bench.bus :: (next result).buses after
  | .consume typeName next, bench => (next (bench.bus.consume actor typeName)).buses bench
  | .answer heading key next, bench => (next (bench.answers.get? heading key)).buses bench
  | .recordAnswer heading key value next, bench =>
      next.buses { bench with answers := bench.answers.set heading key value }
  | .note _ _ next, bench => next.buses bench

def consumed : Program α → Workbench → List Message
  | .done _, _ => []
  | .produce draft next, bench =>
      let (result, after) := bench.produce supply actor phase draft
      (next result).consumed after
  | .consume typeName next, bench =>
      (bench.bus.consume actor typeName).toOption.getD [] ++
        (next (bench.bus.consume actor typeName)).consumed bench
  | .answer heading key next, bench => (next (bench.answers.get? heading key)).consumed bench
  | .recordAnswer heading key value next, bench =>
      next.consumed { bench with answers := bench.answers.set heading key value }
  | .note _ _ next, bench => next.consumed bench

/-- A request for the messages of a type that has been granted. -/
structure Reading where
  typeName : String
  /-- The bus at that moment. -/
  bus : Bus
  messages : List Message

def readings : Program α → Workbench → List Reading
  | .done _, _ => []
  | .produce draft next, bench =>
      let (result, after) := bench.produce supply actor phase draft
      (next result).readings after
  | .consume typeName next, bench =>
      let result := bench.bus.consume actor typeName
      let granted := result.toOption.map fun messages => ⟨typeName, bench.bus, messages⟩
      granted.toList ++ (next result).readings bench
  | .answer heading key next, bench => (next (bench.answers.get? heading key)).readings bench
  | .recordAnswer heading key value next, bench =>
      next.readings { bench with answers := bench.answers.set heading key value }
  | .note _ _ next, bench => next.readings bench

end Program

/-- A bus as it was before, with some messages behind those that it had. -/
structure Bus.Extends (later bus : Bus) : Prop where
  catalog_eq : later.catalog = bus.catalog
  log : bus.log <+: later.log

namespace Bus.Extends

variable {a b c : Bus}

theorem refl (bus : Bus) : bus.Extends bus :=
  ⟨rfl, List.prefix_rfl⟩

theorem trans (h₁ : c.Extends b) (h₂ : b.Extends a) : c.Extends a :=
  ⟨h₁.catalog_eq.trans h₂.catalog_eq, h₂.log.trans h₁.log⟩

end Bus.Extends

section

variable (supply : Supply) (actor : Contract) (phase : String)

theorem Workbench.produce_extends (bench : Workbench) (draft : Message) :
    (bench.produce supply actor phase draft).2.bus.Extends bench.bus ∧
      (Message.Numbered bench.bus.log →
        Message.Numbered (bench.produce supply actor phase draft).2.bus.log) := by
  unfold Workbench.produce
  cases result : bench.bus.produce actor phase draft (supply.time bench.used) with
  | error violation => exact ⟨.refl _, id⟩
  | ok bus =>
      refine ⟨?_, fun numbered => Bus.numbered_of_produce numbered result⟩
      obtain ⟨_, _, rfl⟩ := Bus.produce_spec result
      exact ⟨rfl, List.prefix_append _ _⟩

theorem Program.buses_between {α : Type} (program : Program α) (bench : Workbench) :
    (program.run supply actor phase bench).2.1.bus.Extends bench.bus ∧
      ∀ bus ∈ program.buses supply actor phase bench,
        bus.Extends bench.bus ∧ (program.run supply actor phase bench).2.1.bus.Extends bus := by
  induction program generalizing bench with
  | done value => simpa [Program.buses, Program.run] using .refl bench.bus
  | produce draft next ih =>
      have first := (bench.produce_extends supply actor phase draft).1
      obtain ⟨whole, between⟩ := ih (bench.produce supply actor phase draft).1
        (bench.produce supply actor phase draft).2
      refine ⟨whole.trans first, List.forall_mem_cons.mpr ⟨⟨.refl _, whole.trans first⟩, ?_⟩⟩
      intro bus mem
      exact ⟨(between bus mem).1.trans first, (between bus mem).2⟩
  | consume typeName next ih => exact ih _ bench
  | answer heading key next ih => exact ih _ bench
  | recordAnswer heading key value next ih => exact ih _
  | note key value next ih => exact ih bench

theorem Program.mem_buses {α : Type} (program : Program α) (bench : Workbench) :
    bench.bus ∈ program.buses supply actor phase bench := by
  induction program generalizing bench with
  | done value => exact List.mem_singleton_self _
  | produce draft next ih => exact List.mem_cons_self
  | consume typeName next ih => exact ih _ bench
  | answer heading key next ih => exact ih _ bench
  | recordAnswer heading key value next ih =>
      exact ih { bench with answers := bench.answers.set heading key value }
  | note key value next ih => exact ih bench

theorem Program.readings_spec {α : Type} (program : Program α) {bench : Workbench}
    {reading : Reading} (mem : reading ∈ program.readings supply actor phase bench) :
    reading.bus ∈ program.buses supply actor phase bench ∧
      reading.bus.consume actor reading.typeName = .ok reading.messages := by
  induction program generalizing bench with
  | done value => cases mem
  | produce draft next ih =>
      obtain ⟨among, granted⟩ := ih _ mem
      exact ⟨List.mem_cons_of_mem _ among, granted⟩
  | consume typeName next ih =>
      rcases List.mem_append.mp mem with here | later
      · cases result : bench.bus.consume actor typeName with
        | error violation =>
            rw [result] at here
            cases here
        | ok messages =>
            rw [result] at here
            obtain rfl := List.mem_singleton.mp here
            exact ⟨mem_buses supply actor phase _ bench, result⟩
      · exact ih _ later
  | answer heading key next ih => exact ih _ mem
  | recordAnswer heading key value next ih => exact ih mem
  | note key value next ih => exact ih mem

theorem Program.run_numbered {α : Type} (program : Program α) (bench : Workbench)
    (h : Message.Numbered bench.bus.log) :
    Message.Numbered (program.run supply actor phase bench).2.1.bus.log := by
  induction program generalizing bench with
  | done value => exact h
  | produce draft next ih => exact ih _ _ ((bench.produce_extends supply actor phase draft).2 h)
  | consume typeName next ih => exact ih _ _ h
  | answer heading key next ih => exact ih _ _ h
  | recordAnswer heading key value next ih => exact ih _ h
  | note key value next ih => exact ih _ h

theorem Program.mem_of_consumed {α : Type} (program : Program α) {bench : Workbench}
    {message : Message} (mem : message ∈ program.consumed supply actor phase bench) :
    message ∈ (program.run supply actor phase bench).2.1.bus.log := by
  induction program generalizing bench with
  | done value => cases mem
  | produce draft next ih => exact ih _ mem
  | consume typeName next ih =>
      rcases List.mem_append.mp mem with given | later
      · have whole := ((next (bench.bus.consume actor typeName)).buses_between supply actor phase
          bench).1
        cases result : bench.bus.consume actor typeName with
        | error violation =>
            rw [result] at given
            cases given
        | ok messages =>
            rw [result] at given
            exact whole.log.subset (Bus.mem_of_consume result given)
      · exact ih _ later
  | answer heading key next ih => exact ih _ mem
  | recordAnswer heading key value next ih => exact ih mem
  | note key value next ih => exact ih mem

end

/-! ## Turns -/

namespace Visit

variable (supply : Supply) (execution : Execution) (phase : String) (actor : Actor)
  (bench : Workbench)

def startOf : Workbench :=
  bench.record supply (entry execution phase actor.name "actor_started" "")

def buses : List Bus :=
  (actor.behave ⟨actor.name, phase, execution⟩).buses supply actor.toContract phase
    (startOf supply execution phase actor bench)

def consumed : List Message :=
  (actor.behave ⟨actor.name, phase, execution⟩).consumed supply actor.toContract phase
    (startOf supply execution phase actor bench)

def readings : List Program.Reading :=
  (actor.behave ⟨actor.name, phase, execution⟩).readings supply actor.toContract phase
    (startOf supply execution phase actor bench)

theorem bus_make :
    (make supply execution phase actor bench).2.bus =
      ⟨bench.bus.catalog,
        bench.bus.log ++ (make supply execution phase actor bench).1.produced⟩ := by
  have extended := ((actor.behave ⟨actor.name, phase, execution⟩).buses_between supply
    actor.toContract phase (startOf supply execution phase actor bench)).1
  have catalog : (make supply execution phase actor bench).2.bus.catalog = bench.bus.catalog :=
    extended.catalog_eq
  have log := (make_spec supply execution phase actor bench).2.1.log_eq
  rw [← catalog, ← log]

/--
All buses on the way are numbered if the first is, and nothing is read that is not on the last.
-/
theorem reads_spec (numbered : Message.Numbered bench.bus.log) :
    Message.Numbered (bench.bus.log ++ (make supply execution phase actor bench).1.produced) ∧
      (∀ bus ∈ buses supply execution phase actor bench,
        bus.Extends bench.bus ∧ Message.Numbered bus.log) ∧
      ∀ message ∈ consumed supply execution phase actor bench,
        message ∈ bench.bus.log ++ (make supply execution phase actor bench).1.produced := by
  have log := (make_spec supply execution phase actor bench).2.1.log_eq
  have whole : Message.Numbered (make supply execution phase actor bench).2.bus.log :=
    (actor.behave ⟨actor.name, phase, execution⟩).run_numbered supply actor.toContract phase
      (startOf supply execution phase actor bench) numbered
  have between := ((actor.behave ⟨actor.name, phase, execution⟩).buses_between supply
    actor.toContract phase (startOf supply execution phase actor bench)).2
  rw [← log]
  refine ⟨whole, fun bus mem => ⟨(between bus mem).1, whole.of_prefix (between bus mem).2.log⟩, ?_⟩
  intro message mem
  exact Program.mem_of_consumed supply actor.toContract phase _ mem

end Visit

end PhasedUpgrade
